import Transclusion.Yaml.SyntaxError

/-
  Reading a YAML text character by character.

  Key definitions include:
    * `Transclusion.Yaml.isAllowed`
    * `Transclusion.Yaml.Cursor`
    * `Transclusion.Yaml.Cursor.ofText`
    * `Transclusion.Yaml.Scan`
    * `Transclusion.Yaml.Scan.span`

  A text is taken in block by block.  A character that may
  not occur makes its whole block unreadable, so that an
  error before that block is found first.
-/

------------------------------------------------------------
-- Characters
------------------------------------------------------------

namespace Transclusion

namespace Yaml

/- A character that may occur in a text. -/
def isAllowed
    (c : Char) : Bool :=
  let code := c.toNat
  code == 0x09 || code == 0x0A || code == 0x0D ||
    (0x20 ≤ code && code ≤ 0x7E) ||
    code == 0x85 ||
    (0xA0 ≤ code && code ≤ 0xD7FF) ||
    (0xE000 ≤ code && code ≤ 0xFFFD) ||
    0x10000 ≤ code

/- A character that ends a line. -/
def isBreak
    (c : Char) : Bool :=
  c == '\n' || c == '\r' || c.toNat == 0x85 ||
    c.toNat == 0x2028 || c.toNat == 0x2029

/- A space or a tab. -/
def isWhite
    (c : Char) : Bool :=
  c == ' ' || c == '\t'

/- A character of names. -/
def isWord
    (c : Char) : Bool :=
  c.isAlphanum || c == '-' || c == '_'

/- The value of a decimal digit. -/
def digitValue?
    (c : Char) : Option Nat :=
  if '0' ≤ c ∧ c ≤ '9' then
    some (c.toNat - '0'.toNat)
  else
    none

/- The value of a hexadecimal digit. -/
def hexValue?
    (c : Char) : Option Nat :=
  if '0' ≤ c ∧ c ≤ '9' then
    some (c.toNat - '0'.toNat)
  else if 'a' ≤ c ∧ c ≤ 'f' then
    some (c.toNat - 'a'.toNat + 10)
  else if 'A' ≤ c ∧ c ≤ 'F' then
    some (c.toNat - 'A'.toNat + 10)
  else
    none

/- The number of bytes that characters take up. -/
def byteCount
    (text : List Char) : Nat :=
  text.foldl (fun count c => count + c.utf8Size) 0

/- The end of a line or of the text. -/
def isLineEnd : Option Char → Bool
  | none => true
  | some c => isBreak c

/- A blank, the end of a line or of the text. -/
def isGap : Option Char → Bool
  | none => true
  | some c => isWhite c || isBreak c

end Yaml

end Transclusion

------------------------------------------------------------
-- Cursors
------------------------------------------------------------

namespace Transclusion

namespace Yaml

/-
  What is left of a text of some size, at a mark.  With a
  fault, the rest is only the part before the block that
  holds a character that may not occur, `fault` bytes behind
  the start.
-/
structure Cursor where
  rest : List Char
  size : Nat
  mark : Mark := Mark.start
  fault : Option Nat := none

namespace Cursor

/- The number of bytes that are taken in at once. -/
def blockSize : Nat :=
  16384

/-
  The readable part of a text, and where its first fault is.
  `held` is the block being taken in, in reverse order.
-/
def readable
    (offset blockStart : Nat)
    (held : List Char) :
    List Char → List Char × Option Nat
  | [] => (held.reverse, none)
  | c :: rest =>
      let next := offset + c.utf8Size
      if blockStart + blockSize < next then
        if isAllowed c then
          let more := readable next offset [c] rest
          (held.reverse ++ more.1, more.2)
        else
          (held.reverse, some offset)
      else if isAllowed c then
        readable next blockStart (c :: held) rest
      else
        ([], some offset)

/- The start of a text. -/
def ofText
    (text : List Char) : Cursor :=
  let part := readable 0 0 [] text
  { rest := part.1, size := text.length, fault := part.2 }

end Cursor

end Yaml

end Transclusion

------------------------------------------------------------
-- Scanning
------------------------------------------------------------

namespace Transclusion

namespace Yaml

/- Reading that moves a cursor and may fail. -/
abbrev Scan :=
  StateT Cursor (Except SyntaxError)

namespace Scan

/- The current mark. -/
def mark : Scan Mark :=
  return (← get).mark

/-
  Make sure that so many characters can be looked at, or
  that the text ends before.
-/
def ensure
    (count : Nat) : Scan Unit := do
  let cursor ← get
  match cursor.fault with
  | none => return ()
  | some offset =>
      if cursor.rest.drop (count - 1) = [] then
        throw
          { problem := .controlCharacter, offset := offset }

/- The character at a distance, none behind the end. -/
def peekAt
    (distance : Nat) : Scan (Option Char) := do
  return (← get).rest[distance]?

/- The next character, none at the end. -/
def peek : Scan (Option Char) :=
  peekAt 0

/- Whether a character comes next. -/
def nextIs
    (c : Char) : Scan Bool :=
  return (← peek) == some c

/- Leave characters of one line behind. -/
def skip
    (count : Nat) : Scan Unit :=
  modify fun cursor =>
    { cursor with
      rest := cursor.rest.drop count
      mark :=
        { cursor.mark with
          index :=
            cursor.mark.index +
              byteCount (cursor.rest.take count)
          column := cursor.mark.column + count } }

/-
  Leave a line break behind and return what it stands for:
  a line feed, unless it is one of the two separators.
-/
def lineBreak : Scan (List Char) := do
  let cursor ← get
  let leave (count : Nat) : Scan Unit :=
    set
      { cursor with
        rest := cursor.rest.drop count
        mark :=
          { index :=
              cursor.mark.index +
                byteCount (cursor.rest.take count)
            line := cursor.mark.line + 1
            column := 0 } }
  match cursor.rest with
  | '\r' :: '\n' :: _ =>
      leave 2
      return ['\n']
  | c :: _ =>
      if isBreak c then
        leave 1
        if c.toNat == 0x2028 || c.toNat == 0x2029 then
          return [c]
        else
          return ['\n']
      else
        return []
  | [] => return []

/-
  Leave the characters of a class behind and return them.
  No line break may be in the class.
-/
def span
    (inClass : Char → Bool) : Scan (List Char) := do
  let cursor ← get
  let taken := cursor.rest.takeWhile inClass
  skip taken.length
  ensure 1
  return taken

/- Leave spaces and tabs behind. -/
def skipWhite : Scan Unit := do
  let _ ← span isWhite

/- Leave a comment behind, if one comes next. -/
def skipComment : Scan Unit := do
  if ← nextIs '#' then
    let _ ← span fun c => !isBreak c

/- Fail at the current mark while reading a construct. -/
def fail
    {α : Type}
    (problem : Problem)
    (activity : Activity)
    (start : Mark) : Scan α := do
  throw
    { problem := problem
      mark := ← mark
      context := some (activity, start) }

/- Fail at the current mark. -/
def failHere
    {α : Type}
    (problem : Problem) : Scan α := do
  throw { problem := problem, mark := ← mark }

/-
  Whether three equal characters stand at the start of a
  line with a gap behind them.
-/
def atIndicator
    (c : Char) : Scan Bool := do
  let cursor ← get
  return cursor.mark.column == 0 &&
    cursor.rest.take 3 == [c, c, c] &&
    isGap cursor.rest[3]?

/- Whether a document starts or ends here. -/
def atDocumentIndicator : Scan Bool := do
  return (← atIndicator '-') || (← atIndicator '.')

/-
  The number of steps that is enough for any loop in which
  each step but the last leaves a character behind.
-/
def fuel : Scan Nat :=
  return (← get).size + 1

end Scan

end Yaml

end Transclusion
