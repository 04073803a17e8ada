import Transclusion.Text.Printable

/-
  Text between double quotes, as messages show it.

  Key definitions include:
    * `Transclusion.Text.hexDigits`
    * `Transclusion.Text.quotedChar`
    * `Transclusion.Text.quoted`

  Quotes and backslashes are escaped, the common control
  characters have letters, and every other character that
  has no visible form, or that would attach to the one
  before it, is written by its code point.
-/

------------------------------------------------------------
-- Hexadecimal Numbers
------------------------------------------------------------

namespace Transclusion

namespace Text

/- A number in lower-case hexadecimal digits. -/
def hexDigits
    (n : Nat) : List Char :=
  Nat.toDigits 16 n

/- Digits padded with zeros on the left to a width. -/
def padLeft
    (width : Nat)
    (fill : Char)
    (digits : List Char) : List Char :=
  List.replicate (width - digits.length) fill ++ digits

end Text

end Transclusion

------------------------------------------------------------
-- Quoted Text
------------------------------------------------------------

namespace Transclusion

namespace Text

/- One character inside quoted text. -/
def quotedChar
    (c : Char) : List Char :=
  if c = '"' then ['\\', '"']
  else if c = '\\' then ['\\', '\\']
  else if c = '\n' then ['\\', 'n']
  else if c = '\r' then ['\\', 'r']
  else if c = '\t' then ['\\', 't']
  else if c.toNat = 0 then ['\\', '0']
  else if extendsGrapheme c || !isPrintable c then
    ['\\', 'u', '{'] ++ hexDigits c.toNat ++ ['}']
  else [c]

/- A text between double quotes. -/
def quoted
    (text : String) : String :=
  String.ofList
    ('"' :: text.toList.flatMap quotedChar ++ ['"'])

end Text

end Transclusion
