import Transclusion.Resolve.Resolve
import Transclusion.Text.Quoted

/-
  Lines that tell what a command does.

  Key definitions include:
    * `Transclusion.LogLevel`
    * `Transclusion.LogLine`
    * `Transclusion.LogLine.text`
    * `Transclusion.shownLines`

  A line holds a level, a message and fields.  Characters
  that steer a terminal are spelled out in messages.
-/

------------------------------------------------------------
-- Levels
------------------------------------------------------------

namespace Transclusion

/- How much a line matters. -/
inductive LogLevel where
  | warning
  | information
  | detail
  deriving DecidableEq

namespace LogLevel

/- The name of a level at the start of a line. -/
def name : LogLevel → String
  | warning => "WARN"
  | information => "INFO"
  | detail => "DEBUG"

/- The least verbosity that shows a level. -/
def verbosity : LogLevel → Nat
  | warning => 0
  | information => 1
  | detail => 2

end LogLevel

end Transclusion

------------------------------------------------------------
-- Lines
------------------------------------------------------------

namespace Transclusion

/- A line of the log. -/
structure LogLine where
  level : LogLevel
  message : String
  fields : List (String × String) := []
  deriving DecidableEq

namespace LogLine

/- A character of a message. -/
def safeChar
    (c : Char) : List Char :=
  let code := c.toNat
  if code = 7 ∨ code = 8 ∨ code = 12 ∨ code = 27 ∨
      code = 127 then
    '\\' :: 'x' ::
      Text.padLeft 2 '0' (Text.hexDigits code)
  else if 128 ≤ code ∧ code < 160 then
    '\\' :: 'u' :: '\x7b' :: Text.hexDigits code ++ ['\x7d']
  else [c]

/- The text of a line. -/
def text
    (line : LogLine) : String :=
  let message := line.message.toList.flatMap safeChar
  let fields := line.fields.map fun field =>
    " " ++ field.1 ++ "=" ++ field.2
  line.level.name ++ " " ++ String.ofList message ++
    String.join fields ++ "\n"

/- The line for a step of a resolution, if it has one. -/
def ofStep? : Step → Option LogLine
  | .entered path depth =>
      some
        { level := .detail
          message := "resolving document"
          fields :=
            [("path", path.text),
              ("depth", integerText depth)] }
  | .loaded _ => none
  | .warned warning =>
      some { level := .warning, message := warning.message }

end LogLine

/- The lines that a verbosity shows. -/
def shownLines
    (verbosity : Nat)
    (lines : List LogLine) : String :=
  String.join
    ((lines.filter fun line =>
      line.level.verbosity ≤ verbosity).map LogLine.text)

end Transclusion
