import Transclusion.Text.Lines
import Transclusion.Yaml.Node.OfText

/-
  Documents: texts read as structured values.

  Key definitions include:
    * `Transclusion.ParseError`
    * `Transclusion.ParseError.snippet`
    * `Transclusion.parseText`

  A text of blanks is null.  An error keeps the whole text,
  so that the lines around its place can be shown.
-/

------------------------------------------------------------
-- Errors
------------------------------------------------------------

namespace Transclusion

/- A line and a column, counted from one. -/
structure Location where
  line : Nat
  column : Nat
  deriving DecidableEq

/- Why a text is no document. -/
structure ParseError where
  message : String
  location : Option Location := none
  source : String
  deriving DecidableEq

namespace ParseError

/- The line of the failure, if it is known. -/
def line
    (error : ParseError) : Option Nat :=
  error.location.map (·.line)

/- The column of the failure, if it is known. -/
def column
    (error : ParseError) : Option Nat :=
  error.location.map (·.column)

/- What is wrong with the notation or the shape of a text. -/
def ofReadError
    (error : Yaml.ReadError)
    (source : String) : ParseError where
  message := error.message
  location :=
    error.mark?.map fun mark =>
      ⟨mark.line + 1, mark.column + 1⟩
  source := source

end ParseError

end Transclusion

------------------------------------------------------------
-- Snippets
------------------------------------------------------------

namespace Transclusion

/- Consecutive lines, the first and the last by number. -/
structure Window where
  first : Nat
  last : Nat
  deriving DecidableEq

namespace Window

/-
  The lines around a line, clamped into a text of so many
  lines, or all of them.
-/
def around
    (line : Option Nat)
    (context count : Nat) : Window :=
  match line with
  | none => ⟨1, count⟩
  | some line =>
      let line := max 1 (min line count)
      ⟨max 1 (line - context), min count (line + context)⟩

end Window

namespace ParseError

/- One numbered line, marked or not. -/
def snippetLine
    (marked : Bool)
    (width number : Nat)
    (line : String) : String :=
  let digits := Text.padLeft width ' ' (integerChars number)
  (if marked then "> " else "  ") ++ String.ofList digits ++
    " | " ++ line ++ "\n"

/- The numbered lines around the failure. -/
def snippet
    (error : ParseError)
    (context : Nat) : String :=
  let lines := Text.lines error.source
  if lines = [] then ""
  else
    let window :=
      Window.around error.line context lines.length
    let width := (integerChars window.last).length
    let shown :=
      (lines.drop (window.first - 1)).take
        (window.last + 1 - window.first)
    String.join
      ((shown.zipIdx window.first).map
        fun (line, number) =>
          snippetLine (error.line == some number) width
            number line)

end ParseError

end Transclusion

------------------------------------------------------------
-- Parsing
------------------------------------------------------------

namespace Transclusion

/- The structured value of a text. -/
def parseText
    (text : String) : Except ParseError Value :=
  if Text.IsBlankText text then .ok .null
  else
    match Yaml.Node.ofText text with
    | .error error => .error (.ofReadError error text)
    | .ok node =>
        match node.toValue with
        | .ok value => .ok value
        | .error collision =>
            .error
              { message := collision.message, source := text }

end Transclusion
