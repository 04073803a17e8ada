import Transclusion.Reading.Complaint
import Transclusion.Yaml.Event.Event

/-
  What scalars of YAML texts stand for.

  Key definitions include:
    * `Transclusion.Yaml.Scalar`
    * `Transclusion.Yaml.hasSpareZero`
    * `Transclusion.Yaml.integer?`
    * `Transclusion.Yaml.double?`
    * `Transclusion.Yaml.Scalar.ofPlain`
    * `Transclusion.Yaml.Scalar.resolve`

  A scalar without quotes is nothing, a Boolean value or a
  number if it is written like one, and a text otherwise.  A
  tag of the core schema demands its kind.
-/

------------------------------------------------------------
-- Words
------------------------------------------------------------

namespace Transclusion

namespace Yaml

/- Whether a text is one of the words for nothing. -/
def isNullWord
    (text : List Char) : Bool :=
  ["null".toList, "Null".toList, "NULL".toList,
    "~".toList].contains text

/- The Boolean value that a word stands for. -/
def bool?
    (text : List Char) : Option Bool :=
  if ["true".toList, "True".toList,
      "TRUE".toList].contains text then
    some true
  else if ["false".toList, "False".toList,
      "FALSE".toList].contains text then
    some false
  else
    none

end Yaml

end Transclusion

------------------------------------------------------------
-- Integers
------------------------------------------------------------

namespace Transclusion

namespace Yaml

/- The number that digits of a base write. -/
def digits?
    (base : Nat)
    (text : List Char) : Option Nat :=
  if text = [] then none
  else
    text.foldlM
      (fun n c =>
        match hexValue? c with
        | some digit =>
            if digit < base then some (n * base + digit)
            else none
        | none => none)
      0

/- A text without its sign, if it has one. -/
def dropSign : List Char → List Char
  | '+' :: rest => rest
  | '-' :: rest => rest
  | text => text

/-
  Digits with a zero in front that no number needs; they
  write a text.
-/
def hasSpareZero
    (text : List Char) : Bool :=
  match dropSign text with
  | '0' :: c :: rest =>
      (c :: rest).all Char.isDigit
  | _ => false

/- The number of digits behind the mark of their base. -/
def basedDigits? : List Char → Option Nat
  | '0' :: 'x' :: rest => digits? 16 rest
  | '0' :: 'o' :: rest => digits? 8 rest
  | '0' :: 'b' :: rest => digits? 2 rest
  | _ => none

/- The integer that a text writes, however large. -/
def integer?
    (text : List Char) : Option Int :=
  let unsigned (body : List Char) : Option Nat :=
    match basedDigits? body with
    | some n => some n
    | none =>
        if hasSpareZero text then none
        else digits? 10 body
  match text with
  | '-' :: body => (unsigned body).map fun n => -(n : Int)
  | '+' :: body => (unsigned body).map Int.ofNat
  | body => (unsigned body).map Int.ofNat

end Yaml

end Transclusion

------------------------------------------------------------
-- Binary64 Numbers
------------------------------------------------------------

namespace Transclusion

namespace Yaml

/- The exponent at the end of a number, zero if it has none. -/
def exponent? : List Char → Option Int
  | [] => some 0
  | c :: rest =>
      if c = 'e' ∨ c = 'E' then
        match rest with
        | '-' :: digits =>
            (digits? 10 digits).map fun n => -(n : Int)
        | '+' :: digits => (digits? 10 digits).map Int.ofNat
        | digits => (digits? 10 digits).map Int.ofNat
      else
        none

/- The number that decimal digits and a point write. -/
def decimal?
    (negative : Bool)
    (text : List Char) : Option Double := do
  let whole := text.takeWhile Char.isDigit
  let behind := text.dropWhile Char.isDigit
  let (part, tail) :=
    match behind with
    | '.' :: rest =>
        (rest.takeWhile Char.isDigit,
          rest.dropWhile Char.isDigit)
    | rest => ([], rest)
  let digits ← digits? 10 (whole ++ part)
  let exponent ← exponent? tail
  Double.ofDecimal? negative digits (exponent - part.length)

/- The number, if finite, that a text writes. -/
def finite? : List Char → Option Double
  | '-' :: rest => decimal? true rest
  | '+' :: rest => decimal? false rest
  | text => decimal? false text

/- The number that a text writes. -/
def double?
    (text : List Char) : Option ExtendedDouble :=
  let infinite :=
    [".inf".toList, ".Inf".toList, ".INF".toList]
  let undefined :=
    [".nan".toList, ".NaN".toList, ".NAN".toList]
  if undefined.contains text then
    some .notANumber
  else if infinite.contains text then
    some (.infinity false)
  else
    match text with
    | '+' :: rest =>
        if infinite.contains rest then
          some (.infinity false)
        else
          (finite? text).map .finite
    | '-' :: rest =>
        if infinite.contains rest then
          some (.infinity true)
        else
          (finite? text).map .finite
    | _ => (finite? text).map .finite

end Yaml

end Transclusion

------------------------------------------------------------
-- Scalars
------------------------------------------------------------

namespace Transclusion

namespace Yaml

/-
  What a scalar stands for.  An integer is wide if it needs
  more than 64 bits but no more than 128.
-/
inductive Scalar where
  | null
  | bool (b : Bool)
  | integer (n : Integer)
  | wideInteger (n : Int)
  | double (d : ExtendedDouble)
  | string (text : List Char)
  deriving DecidableEq

namespace Scalar

/-
  The scalar of an integer, if it fits into 128 bits, with
  or without a sign.
-/
def ofInteger?
    (n : Int) : Option Scalar :=
  match Integer.ofInt? n with
  | some m => some (.integer m)
  | none =>
      if -170141183460469231731687303715884105728 ≤ n ∧
          n < 340282366920938463463374607431768211456 then
        some (.wideInteger n)
      else
        none

/- The integer that a text writes, as a scalar. -/
def integer?
    (text : List Char) : Option Scalar :=
  (Yaml.integer? text).bind ofInteger?

/- What a text without quotes stands for. -/
def ofPlain
    (text : List Char) : Scalar :=
  if text = [] ∨ isNullWord text then .null
  else
    match bool? text with
    | some b => .bool b
    | none =>
        match integer? text with
        | some scalar => scalar
        | none =>
            if hasSpareZero text then .string text
            else
              match double? text with
              | some d => .double d
              | none => .string text

/- What a scalar is, for a complaint about it. -/
def found : Scalar → Found
  | null => .nothing
  | bool b => .bool b
  | integer n => .integer n.value
  | wideInteger n => .wideInteger n
  | double d => .double d
  | string text => .string (String.ofList text)

end Scalar

/- A tag without the mark in front, unless that is all. -/
def withoutMark : List Char → List Char
  | '!' :: c :: rest => c :: rest
  | text => text

/- The tag that names a node, without the mark in front. -/
def TagText.local?
    (tag : Option TagText) : Option String :=
  match tag with
  | some ⟨'!' :: rest, true⟩ =>
      some (String.ofList (withoutMark ('!' :: rest)))
  | _ => none

/- The tags of the core schema that demand a kind. -/
inductive CoreTag where
  | bool
  | int
  | float
  | null
  deriving DecidableEq

namespace CoreTag

/- The core schema's tag of a text. -/
def ofTag?
    (tag : TagText) : Option CoreTag :=
  if !tag.valid then none
  else if tag.chars = "tag:yaml.org,2002:bool".toList then
    some .bool
  else if tag.chars = "tag:yaml.org,2002:int".toList then
    some .int
  else if tag.chars = "tag:yaml.org,2002:float".toList then
    some .float
  else if tag.chars = "tag:yaml.org,2002:null".toList then
    some .null
  else
    none

/- The scalar of a kind that a text writes. -/
def scalar?
    (text : List Char) : CoreTag → Option Scalar
  | bool => (bool? text).map .bool
  | int => Scalar.integer? text
  | float => (double? text).map .double
  | null => if isNullWord text then some .null else none

/- The kind in words. -/
def expected : CoreTag → String
  | bool => "a boolean"
  | int => "an integer"
  | float => "a float"
  | null => "null"

end CoreTag

namespace Scalar

/- What a scalar without a tag stands for. -/
def untagged
    (text : List Char)
    (style : ScalarStyle) : Scalar :=
  if style = .plain then ofPlain text else .string text

/-
  What a scalar with a tag stands for.  Tags that begin with
  a mark leave the scalar as it is, and foreign ones make it
  a text.
-/
def resolve
    (tag : Option TagText)
    (text : List Char)
    (style : ScalarStyle) : Except Complaint Scalar :=
  match tag with
  | none => .ok (untagged text style)
  | some tag =>
      match CoreTag.ofTag? tag with
      | some core =>
          match core.scalar? text with
          | some scalar => .ok scalar
          | none =>
              .error
                (.invalidValue (.string (String.ofList text))
                  core.expected)
      | none =>
          if tag.chars.head? = some '!' then
            .ok (untagged text style)
          else
            .ok (.string text)

end Scalar

end Yaml

end Transclusion
