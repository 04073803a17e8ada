import Transclusion.Text.Quoted
import Transclusion.Value.Value

/-
  The JSON text of structured values, compact and indented.

  Key definitions include:
    * `Transclusion.Json.stringChars`
    * `Transclusion.Value.compactJson`
    * `Transclusion.Value.indentedJson`

  Only quotes, backslashes and control characters below the
  space are escaped in strings; all other characters stand
  for themselves.
-/

------------------------------------------------------------
-- Strings
------------------------------------------------------------

namespace Transclusion

namespace Json

/- One character of a string. -/
def stringChar
    (c : Char) : List Char :=
  if c = '"' then ['\\', '"']
  else if c = '\\' then ['\\', '\\']
  else if c = '\n' then ['\\', 'n']
  else if c = '\r' then ['\\', 'r']
  else if c = '\t' then ['\\', 't']
  else if c.toNat = 8 then ['\\', 'b']
  else if c.toNat = 12 then ['\\', 'f']
  else if c.toNat < 32 then
    '\\' :: 'u' ::
      Text.padLeft 4 '0' (Text.hexDigits c.toNat)
  else [c]

/- A string between quotes. -/
def stringChars
    (s : String) : List Char :=
  '"' :: s.toList.flatMap stringChar ++ ['"']

/- The characters of a scalar, of any value but a list. -/
def boolChars : Bool → List Char
  | true => ['t', 'r', 'u', 'e']
  | false => ['f', 'a', 'l', 's', 'e']

/- The word for nothing. -/
def nullChars : List Char :=
  ['n', 'u', 'l', 'l']

end Json

end Transclusion

------------------------------------------------------------
-- Compact Text
------------------------------------------------------------

namespace Transclusion

namespace Json

mutual

/- A value without any blanks. -/
def compact : Value → List Char
  | .null => nullChars
  | .bool b => boolChars b
  | .number n => (n.text Layout.json).toList
  | .string s => stringChars s
  | .array items => '[' :: compactItems items ++ [']']
  | .object fields => '{' :: compactFields fields ++ ['}']

/- Items between commas. -/
def compactItems : List Value → List Char
  | [] => []
  | [item] => compact item
  | item :: rest =>
      compact item ++ ',' :: compactItems rest

/- Fields between commas. -/
def compactFields : List (String × Value) → List Char
  | [] => []
  | [(key, value)] =>
      stringChars key ++ ':' :: compact value
  | (key, value) :: rest =>
      stringChars key ++ ':' :: compact value ++
        ',' :: compactFields rest

end

end Json

/- The JSON text of a value on one line, without blanks. -/
def Value.compactJson
    (value : Value) : String :=
  String.ofList (Json.compact value)

end Transclusion

------------------------------------------------------------
-- Indented Text
------------------------------------------------------------

namespace Transclusion

namespace Json

/- A new line at a depth, two spaces a level. -/
def newLine
    (depth : Nat) : List Char :=
  '\n' :: List.replicate (2 * depth) ' '

mutual

/- A value with one item or field a line. -/
def indented
    (depth : Nat) : Value → List Char
  | .null => nullChars
  | .bool b => boolChars b
  | .number n => (n.text Layout.json).toList
  | .string s => stringChars s
  | .array [] => ['[', ']']
  | .array (item :: rest) =>
      '[' :: newLine (depth + 1) ++
        indented (depth + 1) item ++
        indentedItems depth rest ++
        newLine depth ++ [']']
  | .object [] => ['{', '}']
  | .object ((key, value) :: rest) =>
      '{' :: newLine (depth + 1) ++
        stringChars key ++ ':' :: ' ' ::
        indented (depth + 1) value ++
        indentedFields depth rest ++
        newLine depth ++ ['}']

/- The items after the first one. -/
def indentedItems
    (depth : Nat) : List Value → List Char
  | [] => []
  | item :: rest =>
      ',' :: newLine (depth + 1) ++
        indented (depth + 1) item ++
        indentedItems depth rest

/- The fields after the first one. -/
def indentedFields
    (depth : Nat) : List (String × Value) → List Char
  | [] => []
  | (key, value) :: rest =>
      ',' :: newLine (depth + 1) ++
        stringChars key ++ ':' :: ' ' ::
        indented (depth + 1) value ++
        indentedFields depth rest

end

end Json

/- The JSON text of a value, indented by two spaces. -/
def Value.indentedJson
    (value : Value) : String :=
  String.ofList (Json.indented 0 value)

end Transclusion
