import Transclusion.Text.Quoted
import Transclusion.Number.Number

/-
  Why a value does not fit where it is wanted.

  Key definitions include:
    * `Transclusion.Found`
    * `Transclusion.Wording`
    * `Transclusion.Complaint`
    * `Transclusion.Complaint.message`

  A complaint holds what was found and what was expected.
  The wordings differ in how they name nothing and how they
  write a binary64 number.
-/

------------------------------------------------------------
-- Findings
------------------------------------------------------------

namespace Transclusion

/- A number that may be infinite or none at all. -/
inductive ExtendedDouble where
  | finite (d : Double)
  | infinity (negative : Bool)
  | notANumber
  deriving DecidableEq

/- What was found in a place. -/
inductive Found where
  | nothing
  | bool (b : Bool)
  | integer (n : Int)
  | wideInteger (n : Int)
  | double (d : ExtendedDouble)
  | string (s : String)
  | sequence
  | map

/- How findings are worded. -/
structure Wording where
  nothing : String
  double : Double → String

namespace Wording

/- The wording for structured values. -/
def value : Wording :=
  ⟨"null", Double.text Layout.json⟩

/- The wording for texts that are read directly. -/
def text : Wording :=
  ⟨"unit value", Double.positionalText⟩

end Wording

/- The words for the two Boolean values. -/
def boolText : Bool → String
  | true => "true"
  | false => "false"

namespace Found

/- Words between backticks. -/
def ticked
    (kind content : String) : String :=
  kind ++ " `" ++ content ++ "`"

/- What is said about a finding. -/
def message
    (wording : Wording) : Found → String
  | nothing => wording.nothing
  | bool b => ticked "boolean" (boolText b)
  | integer n => ticked "integer" (integerText n)
  | wideInteger n =>
      ticked "integer" (integerText n) ++
        (if n < 0 then " as i128" else " as u128")
  | double (.finite d) =>
      ticked "floating point" (wording.double d)
  | double (.infinity negative) =>
      ticked "floating point"
        (if negative then "-inf" else "inf")
  | double .notANumber => ticked "floating point" "NaN"
  | string s => "string " ++ Text.quoted s
  | sequence => "sequence"
  | map => "map"

end Found

end Transclusion

------------------------------------------------------------
-- Complaints
------------------------------------------------------------

namespace Transclusion

/- Why a value does not fit. -/
inductive Complaint where
  | invalidType (found : Found) (expected : String)
  | invalidValue (found : Found) (expected : String)
  | invalidLength (length : Nat) (expected : String)
  | missingField (name : String)
  | duplicateField (name : String)
  | unknownVariant (name : String) (known : List String)
  | duplicateKey (key : String)

namespace Complaint

/- The known variants, in words. -/
def variantsText : List String → String
  | [] => "there are no variants"
  | [a] => "expected `" ++ a ++ "`"
  | [a, b] =>
      "expected `" ++ a ++ "` or `" ++ b ++ "`"
  | names =>
      "expected one of " ++
        ", ".intercalate
          (names.map fun name => "`" ++ name ++ "`")

/- What is said about a complaint. -/
def message
    (wording : Wording) : Complaint → String
  | invalidType found expected =>
      "invalid type: " ++ found.message wording ++
        ", expected " ++ expected
  | invalidValue found expected =>
      "invalid value: " ++ found.message wording ++
        ", expected " ++ expected
  | invalidLength length expected =>
      "invalid length " ++ integerText length ++
        ", expected " ++ expected
  | missingField name => "missing field `" ++ name ++ "`"
  | duplicateField name =>
      "duplicate field `" ++ name ++ "`"
  | unknownVariant name known =>
      "unknown variant `" ++ name ++ "`, " ++
        variantsText known
  | duplicateKey key => "duplicate entry " ++ key

end Complaint

end Transclusion
