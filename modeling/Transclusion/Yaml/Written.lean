import Transclusion.Text.Quoted
import Transclusion.Yaml.Scalar

/-
  How texts are written as YAML scalars.

  Key definitions include:
    * `Transclusion.Yaml.isWritable`
    * `Transclusion.Yaml.Traits`
    * `Transclusion.Yaml.writtenStyle`
    * `Transclusion.Yaml.writtenScalar`

  A text with line feeds becomes a literal block, a text
  that would read as something else is quoted, and a text
  that plain notation cannot hold is quoted too, with
  escapes only where it has to be.
-/

------------------------------------------------------------
-- Traits of Texts
------------------------------------------------------------

namespace Transclusion

namespace Yaml

/- A character that needs no escape. -/
def isWritable
    (c : Char) : Bool :=
  let code := c.toNat
  code == 0x0A ||
    (0x20 ≤ code && code ≤ 0x7E) ||
    (0xA0 ≤ code && code ≤ 0xD7FF) ||
    (0xE000 ≤ code && code ≤ 0xFFFD && code != 0xFEFF) ||
    0x10000 ≤ code

/- Whether two characters in a row have two properties. -/
def hasPair
    (first second : Char → Bool) : List Char → Bool
  | a :: b :: rest =>
      (first a && second b) || hasPair first second (b :: rest)
  | _ => false

/- What decides about the notation of a text. -/
structure Traits where
  special : Bool
  broken : Bool
  startsOpen : Bool
  endsOpen : Bool
  endsInSpace : Bool
  breakSpace : Bool
  spaceBreak : Bool
  indicator : Bool

/-
  Whether a text begins with, or holds, something that has a
  meaning of its own outside flow collections.
-/
def hasIndicator
    (text : List Char) : Bool :=
  let after := isGap text[1]?
  let atStart :=
    match text.head? with
    | none => false
    | some c =>
        "#,[]\x7b\x7d&*!|>'\"%@`".toList.contains c ||
          ("?:-".toList.contains c && after)
  let ruled :=
    text.take 3 == "---".toList ||
      text.take 3 == "...".toList
  let colon :=
    hasPair (· == ':') (fun c => isGap (some c)) text ||
      text.getLast? == some ':'
  let comment :=
    hasPair (fun c => isGap (some c)) (· == '#') text
  atStart || ruled || colon || comment

namespace Traits

/- The traits of a text. -/
def ofText
    (text : List Char) : Traits :=
  let isSpace (c : Char) : Bool := c == ' '
  let isOpen (c : Char) : Bool := isSpace c || isBreak c
  { special := !text.all isWritable
    broken := text.any isBreak
    startsOpen := text.head?.any isOpen
    endsOpen := text.getLast?.any isOpen
    endsInSpace := text.getLast?.any isSpace
    breakSpace := hasPair isBreak isSpace text
    spaceBreak := hasPair isSpace isBreak text
    indicator := hasIndicator text }

/- Whether the text can stand without quotes. -/
def allowPlain
    (traits : Traits) : Bool :=
  !(traits.special || traits.broken || traits.startsOpen ||
    traits.endsOpen || traits.breakSpace ||
    traits.spaceBreak || traits.indicator)

/- Whether the text can stand in single quotes. -/
def allowSingle
    (traits : Traits) : Bool :=
  !(traits.special || traits.breakSpace ||
    traits.spaceBreak)

/- Whether the text can stand in a literal block. -/
def allowBlock
    (traits : Traits) : Bool :=
  !(traits.special || traits.endsInSpace ||
    traits.spaceBreak)

end Traits

/- Whether a text without quotes would be read as itself. -/
def readsAsText
    (text : List Char) : Bool :=
  match Scalar.ofPlain text with
  | .string _ => !hasSpareZero text
  | _ => false

/- The style in which a text is written. -/
def writtenStyle
    (text : List Char) : ScalarStyle :=
  let traits := Traits.ofText text
  if text.contains '\n' then
    if traits.allowBlock then .literal else .doubleQuoted
  else if readsAsText text && traits.allowPlain then .plain
  else if traits.allowSingle then .singleQuoted
  else .doubleQuoted

end Yaml

end Transclusion

------------------------------------------------------------
-- Scalars
------------------------------------------------------------

namespace Transclusion

namespace Yaml

/- So many spaces. -/
def spaces
    (count : Nat) : List Char :=
  List.replicate count ' '

/-
  Characters with an indentation after each line break, but
  not before another one.  `broken` says whether a break
  stands before them.
-/
def indentLines
    (indent : Nat) :
    Bool → List Char → List Char
  | _, [] => []
  | broken, c :: rest =>
      if isBreak c then c :: indentLines indent true rest
      else
        (if broken then spaces indent else []) ++
          c :: indentLines indent false rest

/- One character in double quotes. -/
def escapedChar
    (c : Char) : List Char :=
  let coded (letter : Char) (width : Nat) : List Char :=
    '\\' :: letter ::
      Text.padLeft width '0'
        ((Text.hexDigits c.toNat).map Char.toUpper)
  if isWritable c && !isBreak c && c != '"' &&
      c != '\\' then
    [c]
  else if c == '"' then ['\\', '"']
  else if c == '\\' then ['\\', '\\']
  else
    match c.toNat with
    | 0x00 => ['\\', '0']
    | 0x07 => ['\\', 'a']
    | 0x08 => ['\\', 'b']
    | 0x09 => ['\\', 't']
    | 0x0A => ['\\', 'n']
    | 0x0B => ['\\', 'v']
    | 0x0C => ['\\', 'f']
    | 0x0D => ['\\', 'r']
    | 0x1B => ['\\', 'e']
    | 0x85 => ['\\', 'N']
    | 0x2028 => ['\\', 'L']
    | 0x2029 => ['\\', 'P']
    | code =>
        if code ≤ 0xFF then coded 'x' 2
        else if code ≤ 0xFFFF then coded 'u' 4
        else coded 'U' 8

/- A text in double quotes. -/
def doubleQuoted
    (text : List Char) : List Char :=
  '"' :: text.flatMap escapedChar ++ ['"']

/-
  A text in single quotes.  What follows a line break is
  indented, the closing quote included.
-/
def singleQuoted
    (indent : Nat)
    (text : List Char) : List Char :=
  let doubled :=
    text.flatMap fun c =>
      if c = '\'' then ['\'', '\''] else [c]
  '\'' :: indentLines indent false (doubled ++ ['\''])

/-
  The header of a literal block: the indentation, if the
  text does not show it, and what becomes of its last line
  breaks.
-/
def literalHeader
    (text : List Char) : List Char :=
  let hidden :=
    text.head?.any fun c => c == ' ' || isBreak c
  let chomping :=
    match text.reverse with
    | last :: before :: _ =>
        if !isBreak last then ['-']
        else if isBreak before then ['+']
        else []
    | [last] => if isBreak last then ['+'] else ['-']
    | [] => ['-']
  '|' :: (if hidden then ['2'] else []) ++ chomping

/- A text as a literal block. -/
def literal
    (indent : Nat)
    (text : List Char) : List Char :=
  literalHeader text ++
    '\n' :: indentLines indent true text

/-
  A text as a scalar with its line end.  A literal block
  whose text ends in a line break has that for its end.
-/
def writtenScalar
    (indent : Nat)
    (text : List Char) : List Char :=
  match writtenStyle text with
  | .singleQuoted => singleQuoted indent text ++ ['\n']
  | .doubleQuoted => doubleQuoted text ++ ['\n']
  | .literal =>
      if text.getLast?.any isBreak then literal indent text
      else literal indent text ++ ['\n']
  | _ => text ++ ['\n']

end Yaml

end Transclusion
