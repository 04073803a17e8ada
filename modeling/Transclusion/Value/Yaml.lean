import Transclusion.Value.Json
import Transclusion.Yaml.Written

/-
  The YAML text of structured values.

  Key definitions include:
    * `Transclusion.Yaml.Block.root`
    * `Transclusion.Value.yaml`

  Collections are written in block style, two columns a
  level.  The entries of a sequence under a key stand at the
  column of the key, and a collection inside a sequence
  begins on the line of its dash.
-/

------------------------------------------------------------
-- Keys
------------------------------------------------------------

namespace Transclusion

namespace Yaml

namespace Block

/-
  Whether a key can stand in front of its colon: on one line
  and in at most 128 bytes.
-/
def isSimpleKey
    (key : String) : Bool :=
  !key.toList.any isBreak && key.utf8ByteSize ≤ 128

/- A key with its colon; any but a simple one is marked. -/
def keyPart
    (indent : Nat)
    (key : String) : List Char :=
  let scalar := writtenScalar (indent + 2) key.toList
  if isSimpleKey key then
    scalar.dropLast ++ [':']
  else
    '?' :: ' ' :: scalar ++ spaces indent ++ [':']

end Block

end Yaml

end Transclusion

------------------------------------------------------------
-- Blocks
------------------------------------------------------------

namespace Transclusion

namespace Yaml

namespace Block

/- A scalar that is no text. -/
def word : Value → List Char
  | .null => "null".toList
  | .bool b => (boolText b).toList
  | .number n => (n.text Layout.yaml).toList
  | .array _ => "[]".toList
  | .object _ => "{}".toList
  | .string s => s.toList

/- A scalar or an empty collection, with its line end. -/
def leaf
    (indent : Nat) : Value → List Char
  | .string s => writtenScalar (indent + 2) s.toList
  | value => word value ++ ['\n']

mutual

/-
  What follows a mark at a column.  Behind the colon of a
  simple key, a collection begins in the next line, and a
  sequence is not indented any further; behind other marks
  it goes on in the same line.
-/
def content
    (simple : Bool)
    (indent : Nat) : Value → List Char
  | .array (item :: rest) =>
      let inner := if simple then indent else indent + 2
      (if simple then '\n' :: spaces inner else [' ']) ++
        '-' :: content false inner item ++
        items inner rest
  | .object ((key, value) :: rest) =>
      let inner := indent + 2
      (if simple then '\n' :: spaces inner else [' ']) ++
        keyPart inner key ++
        content (isSimpleKey key) inner value ++
        fields inner rest
  | value => ' ' :: leaf indent value

/- The entries of a sequence, each on lines of its own. -/
def items
    (indent : Nat) : List Value → List Char
  | [] => []
  | item :: rest =>
      spaces indent ++ '-' :: content false indent item ++
        items indent rest

/- The entries of a mapping, each on lines of its own. -/
def fields
    (indent : Nat) : List (String × Value) → List Char
  | [] => []
  | (key, value) :: rest =>
      spaces indent ++ keyPart indent key ++
        content (isSimpleKey key) indent value ++
        fields indent rest

end

/- A whole text. -/
def root : Value → List Char
  | .array (item :: rest) => items 0 (item :: rest)
  | .object (field :: rest) => fields 0 (field :: rest)
  | value => leaf 0 value

end Block

end Yaml

/- The YAML text of a value. -/
def Value.yaml
    (value : Value) : String :=
  String.ofList (Yaml.Block.root value)

end Transclusion
