import Transclusion.Yaml.Token

/-
  The reading of scalar tokens: blocks, quoted texts and
  plain ones.

  Key definitions include:
    * `Transclusion.Yaml.Fold`
    * `Transclusion.Yaml.Scan.blockScalar`
    * `Transclusion.Yaml.Scan.quotedScalar`
    * `Transclusion.Yaml.Scan.plainScalar`

  Between the lines of quoted and plain scalars a single
  line break counts as a space, and of several ones the
  first counts for nothing.
-/

------------------------------------------------------------
-- Block Scalars
------------------------------------------------------------

namespace Transclusion

namespace Yaml

/- What becomes of the line breaks at the end of a block. -/
inductive Chomping where
  | strip
  | clip
  | keep
  deriving DecidableEq

/- What the first line of a block scalar says. -/
structure BlockHeader where
  chomping : Chomping := .clip
  increment : Nat := 0

/- Blank lines, and the indentation found behind them. -/
structure BlockGap where
  indent : Nat
  breaks : List Char
  stop : Mark

namespace Scan

/- The chomping indicator, if one comes next. -/
def chomping? : Scan (Option Chomping) := do
  match ← peek with
  | some '+' =>
      skip 1
      return some .keep
  | some '-' =>
      skip 1
      return some .strip
  | _ => return none

/- The indentation indicator, if one comes next. -/
def increment?
    (start : Mark) : Scan (Option Nat) := do
  match (← peek).bind digitValue? with
  | none => return none
  | some digit =>
      if digit = 0 then
        fail .indentationZero .blockScalar start
      skip 1
      return some digit

/- The indicators of a block scalar, in either order. -/
def blockHeader
    (start : Mark) : Scan BlockHeader := do
  ensure 1
  match ← chomping? with
  | some chomping =>
      ensure 1
      let increment ← increment? start
      return ⟨chomping, increment.getD 0⟩
  | none =>
      match ← increment? start with
      | some increment =>
          ensure 1
          let chomping ← chomping?
          return ⟨chomping.getD .clip, increment⟩
      | none => return {}

/-
  Leave blank lines behind, and the indentation of the line
  after them.  An indentation of zero is yet to be found.
-/
def blockGap
    (indent : Nat)
    (start : Mark) :
    Nat → Nat → Mark → Scan (Nat × List Char × Mark)
  | 0, widest, stop => return (widest, [], stop)
  | fuel + 1, widest, stop => do
      ensure 1
      let column := (← mark).column
      let spaces :=
        ((← get).rest.takeWhile (· == ' ')).length
      skip
        (if indent = 0 then spaces
          else min spaces (indent - column))
      ensure 1
      let column := (← mark).column
      let widest := max widest column
      let next ← peek
      if (indent = 0 || column < indent) &&
          next == some '\t' then
        fail .indentationTab .blockScalar start
      if next.any isBreak then
        ensure 2
        let line ← lineBreak
        let (widest, more, stop) ←
          blockGap indent start fuel widest (← mark)
        return (widest, line ++ more, stop)
      else
        return (widest, [], stop)

/-
  Leave blank lines behind and settle the indentation: the
  widest found, but more than that of the parent.
-/
def blockIndent
    (parent : Int)
    (indent : Nat)
    (start : Mark) : Scan BlockGap := do
  let (widest, breaks, stop) ←
    blockGap indent start (← fuel) 0 (← mark)
  let least := max (parent + 1).toNat 1
  let found := if indent = 0 then max widest least else indent
  return ⟨found, breaks, stop⟩

/-
  The lines of a block scalar.  `ending` is the break of the
  line before, `gap` what follows it, and `wasWhite` whether
  that line began with a blank.
-/
def blockLines
    (parent : Int)
    (folded : Bool)
    (chomping : Chomping)
    (start : Mark) :
    Nat → List Char → BlockGap → Bool →
      Scan (List Char × Mark)
  | 0, _, gap, _ => return ([], gap.stop)
  | fuel + 1, ending, gap, wasWhite => do
      let next ← peek
      if (← mark).column ≠ gap.indent || next.isNone then
        match chomping with
        | .strip => return ([], gap.stop)
        | .clip => return (ending, gap.stop)
        | .keep => return (ending ++ gap.breaks, gap.stop)
      else
        let isWhite := next.any isWhite
        let joint :=
          if folded && ending == ['\n'] &&
              !wasWhite && !isWhite then
            if gap.breaks = [] then [' '] else []
          else
            ending
        let line ← span fun c => !isBreak c
        ensure 2
        let lineEnd ← lineBreak
        let after ← blockIndent parent gap.indent start
        let (rest, stop) ←
          blockLines parent folded chomping start fuel
            lineEnd after isWhite
        return (joint ++ gap.breaks ++ line ++ rest, stop)

/- A block scalar below a parent of some indentation. -/
def blockScalar
    (parent : Int)
    (folded : Bool) : Scan Token := do
  let start ← mark
  skip 1
  let header ← blockHeader start
  ensure 1
  skipWhite
  skipComment
  if !isLineEnd (← peek) then
    fail .lineNotEnded .blockScalar start
  ensure 2
  let _ ← lineBreak
  let indent :=
    if header.increment = 0 then 0
    else (max parent 0).toNat + header.increment
  let gap ← blockIndent parent indent start
  ensure 1
  let (text, stop) ←
    blockLines parent folded header.chomping start
      (← fuel) [] gap false
  let style := if folded then .folded else .literal
  return ⟨.scalar text style, start, stop⟩

end Scan

end Yaml

end Transclusion

------------------------------------------------------------
-- Folded Gaps
------------------------------------------------------------

namespace Transclusion

namespace Yaml

/-
  Blanks and line breaks between two parts of a scalar.
-/
structure Fold where
  whites : List Char := []
  broken : Bool := false
  first : List Char := []
  more : List Char := []

namespace Fold

/- What the blanks and breaks stand for. -/
def text
    (fold : Fold) : List Char :=
  if fold.broken then
    if fold.first = ['\n'] then
      if fold.more = [] then [' '] else fold.more
    else
      fold.first ++ fold.more
  else
    fold.whites

end Fold

namespace Scan

/-
  Leave blanks and breaks behind.  A tab may not stand in
  the indentation before the column `tabLimit`.
-/
def fold
    (tabLimit : Nat)
    (start : Mark) : Nat → Fold → Scan Fold
  | 0, taken => return taken
  | fuel + 1, taken => do
      match ← peek with
      | none => return taken
      | some c =>
          if isWhite c then
            if taken.broken && c == '\t' &&
                (← mark).column < tabLimit then
              fail .scalarTab .plainScalar start
            skip 1
            ensure 1
            fold tabLimit start fuel
              (if taken.broken then taken
                else
                  { taken with
                    whites := taken.whites ++ [c] })
          else if isBreak c then
            ensure 2
            let line ← lineBreak
            ensure 1
            fold tabLimit start fuel
              (if taken.broken then
                { taken with more := taken.more ++ line }
              else
                { taken with
                  whites := []
                  broken := true
                  first := line })
          else
            return taken

end Scan

end Yaml

end Transclusion

------------------------------------------------------------
-- Quoted Scalars
------------------------------------------------------------

namespace Transclusion

namespace Yaml

/- An escape in double quotes. -/
inductive Escape where
  | char (c : Char)
  | code (digits : Nat)

namespace Escape

/- The escape that a letter stands for. -/
def ofLetter? : Char → Option Escape
  | '0' => some (.char (Char.ofNat 0))
  | 'a' => some (.char (Char.ofNat 7))
  | 'b' => some (.char (Char.ofNat 8))
  | 't' => some (.char '\t')
  | '\t' => some (.char '\t')
  | 'n' => some (.char '\n')
  | 'v' => some (.char (Char.ofNat 11))
  | 'f' => some (.char (Char.ofNat 12))
  | 'r' => some (.char '\r')
  | 'e' => some (.char (Char.ofNat 27))
  | ' ' => some (.char ' ')
  | '"' => some (.char '"')
  | '/' => some (.char '/')
  | '\\' => some (.char '\\')
  | 'N' => some (.char (Char.ofNat 0x85))
  | '_' => some (.char (Char.ofNat 0xA0))
  | 'L' => some (.char (Char.ofNat 0x2028))
  | 'P' => some (.char (Char.ofNat 0x2029))
  | 'x' => some (.code 2)
  | 'u' => some (.code 4)
  | 'U' => some (.code 8)
  | _ => none

end Escape

namespace Scan

/- The value of so many hexadecimal digits ahead. -/
def hexAhead
    (start : Mark)
    (count : Nat) : Scan Nat := do
  ensure count
  let digits := (← get).rest.take count
  match digits.mapM hexValue? with
  | none => fail .hexadecimalMissing .quotedEscape start
  | some values =>
      if values.length < count then
        fail .hexadecimalMissing .quotedEscape start
      return values.foldl (fun n d => n * 16 + d) 0

/- The character of an escape. -/
def escaped
    (start : Mark) : Scan Char := do
  match (← peekAt 1).bind Escape.ofLetter? with
  | none => fail .escapeUnknown .quotedEscape start
  | some (.char c) =>
      skip 2
      return c
  | some (.code digits) =>
      skip 2
      let code ← hexAhead start digits
      if (0xD800 ≤ code && code ≤ 0xDFFF) ||
          0x10FFFF < code then
        fail .codePointInvalid .quotedEscape start
      skip digits
      return Char.ofNat code

/-
  The characters up to the next gap or the closing quote,
  and whether an escaped line break came last.
-/
def quotedChars
    (single : Bool)
    (start : Mark) : Nat → Scan (List Char × Bool)
  | 0 => return ([], false)
  | fuel + 1 => do
      let next ← peek
      let after ← peekAt 1
      match next with
      | none => return ([], false)
      | some c =>
          if isWhite c || isBreak c then
            return ([], false)
          else if single && c == '\'' &&
              after == some '\'' then
            skip 2
            ensure 2
            let (rest, broken) ←
              quotedChars single start fuel
            return ('\'' :: rest, broken)
          else if c == (if single then '\'' else '"') then
            return ([], false)
          else if !single && c == '\\' &&
              after.any isBreak then
            ensure 3
            skip 1
            let _ ← lineBreak
            return ([], true)
          else
            let d ←
              if !single && c == '\\' then
                escaped start
              else do
                skip 1
                pure c
            ensure 2
            let (rest, broken) ←
              quotedChars single start fuel
            return (d :: rest, broken)

/- The parts of a quoted scalar, up to its closing quote. -/
def quotedParts
    (single : Bool)
    (start : Mark) : Nat → Scan (List Char)
  | 0 => return []
  | fuel + 1 => do
      ensure 4
      if ← atDocumentIndicator then
        fail .documentIndicator .quotedScalar start
      if (← peek).isNone then
        fail .endOfStream .quotedScalar start
      ensure 2
      let (chars, broken) ←
        quotedChars single start (← Scan.fuel)
      ensure 1
      if ← nextIs (if single then '\'' else '"') then
        return chars
      else
        let gap ←
          fold 0 start (← Scan.fuel) { broken := broken }
        let rest ← quotedParts single start fuel
        return chars ++ gap.text ++ rest

/- A scalar between quotes. -/
def quotedScalar
    (single : Bool) : Scan Token := do
  let start ← mark
  skip 1
  let text ← quotedParts single start (← fuel)
  skip 1
  let style :=
    if single then .singleQuoted else .doubleQuoted
  return ⟨.scalar text style, start, ← mark⟩

end Scan

end Yaml

end Transclusion

------------------------------------------------------------
-- Plain Scalars
------------------------------------------------------------

namespace Transclusion

namespace Yaml

namespace Scan

/- The characters of a plain scalar up to the next gap. -/
def plainChars
    (inFlow : Bool)
    (start : Mark) : Nat → Scan (List Char)
  | 0 => return []
  | fuel + 1 => do
      let next ← peek
      let after ← peekAt 1
      match next with
      | none => return []
      | some c =>
          if isWhite c || isBreak c then
            return []
          else if inFlow && c == ':' &&
              after.any (",?[]\x7b\x7d".toList.contains ·) then
            fail .colonUnexpected .plainScalar start
          else if (c == ':' && isGap after) ||
              (inFlow &&
                ",[]\x7b\x7d".toList.contains c) then
            return []
          else
            skip 1
            ensure 2
            return c :: (← plainChars inFlow start fuel)

/-
  The parts of a plain scalar after a gap, where the scalar
  ends, and whether a line break was the last thing left
  behind.
-/
def plainParts
    (inFlow : Bool)
    (indent : Nat)
    (start : Mark) :
    Nat → Fold → Mark → Scan (List Char × Mark × Bool)
  | 0, gap, stop => return ([], stop, gap.broken)
  | fuel + 1, gap, stop => do
      ensure 4
      if (← atDocumentIndicator) || (← nextIs '#') then
        return ([], stop, gap.broken)
      let chars ← plainChars inFlow start (← Scan.fuel)
      if chars = [] then
        return ([], stop, gap.broken)
      else
        let stop ← mark
        let text := gap.text ++ chars
        let next ← peek
        if !(next.any fun c => isWhite c || isBreak c) then
          return (text, stop, false)
        else
          let after ← fold indent start (← Scan.fuel) {}
          if !inFlow && (← mark).column < indent then
            return (text, stop, after.broken)
          else
            let (rest, stop, broken) ←
              plainParts inFlow indent start fuel after stop
            return (text ++ rest, stop, broken)

/-
  A scalar without quotes below a parent of some
  indentation, and whether it left a line break behind.
-/
def plainScalar
    (parent : Int)
    (inFlow : Bool) : Scan (Token × Bool) := do
  let start ← mark
  let (text, stop, broken) ←
    plainParts inFlow (parent + 1).toNat start
      (← fuel) {} start
  return (⟨.scalar text .plain, start, stop⟩, broken)

end Scan

end Yaml

end Transclusion
