import Transclusion.Number.Number

/-
  What can be wrong with the notation of a YAML text, and
  where.

  Key definitions include:
    * `Transclusion.Yaml.Mark`
    * `Transclusion.Yaml.Problem`
    * `Transclusion.Yaml.Activity`
    * `Transclusion.Yaml.SyntaxError`
    * `Transclusion.Yaml.SyntaxError.message`

  A syntax error names a problem at a mark and, where that
  helps, the construct whose reading had begun at another
  mark.
-/

------------------------------------------------------------
-- Marks
------------------------------------------------------------

namespace Transclusion

namespace Yaml

/-
  A place in a text: the number of bytes before it, its line
  and its column.  Lines and columns start at zero, and a
  column is counted in characters.
-/
structure Mark where
  index : Nat := 0
  line : Nat := 0
  column : Nat := 0
  deriving DecidableEq

namespace Mark

/- The very first place of a text. -/
def start : Mark :=
  {}

/- Whether a mark stands at the start of the first line. -/
def isStart
    (mark : Mark) : Bool :=
  mark.line == 0 && mark.column == 0

/- Whether two marks have one line and column. -/
def samePlace
    (a b : Mark) : Bool :=
  a.line == b.line && a.column == b.column

/- The line and the column, counted from one. -/
def text
    (mark : Mark) : String :=
  "line " ++ integerText (mark.line + 1) ++
    " column " ++ integerText (mark.column + 1)

end Mark

end Yaml

end Transclusion

------------------------------------------------------------
-- Problems
------------------------------------------------------------

namespace Transclusion

namespace Yaml

/- What is wrong. -/
inductive Problem where
  | controlCharacter
  | colonMissing
  | noTokenStart
  | sequenceEntryMisplaced
  | keyMisplaced
  | valueMisplaced
  | directiveUnknown
  | directiveNameMissing
  | directiveNameBroken
  | versionPointMissing
  | versionMissing
  | versionTooLong
  | lineNotEnded
  | blankMissing
  | blankOrBreakMissing
  | anchorNameMissing
  | verbatimTagOpen
  | tagMarkMissing
  | tagUriMissing
  | uriOctetMissing
  | uriLeadingOctet
  | uriTrailingOctet
  | indentationZero
  | indentationTab
  | scalarTab
  | documentIndicator
  | endOfStream
  | escapeUnknown
  | hexadecimalMissing
  | codePointInvalid
  | colonUnexpected
  | documentStartMissing
  | versionRepeated
  | versionIncompatible
  | tagDirectiveRepeated
  | tagHandleUndefined
  | contentMissing
  | sequenceIndicatorMissing
  | keyMissing
  | flowSequenceOpen
  | flowMappingOpen
  deriving DecidableEq

namespace Problem

/- What is said about a problem. -/
def message : Problem → String
  | controlCharacter => "control characters are not allowed"
  | colonMissing => "could not find expected ':'"
  | noTokenStart =>
      "found character that cannot start any token"
  | sequenceEntryMisplaced =>
      "block sequence entries are not allowed in this context"
  | keyMisplaced =>
      "mapping keys are not allowed in this context"
  | valueMisplaced =>
      "mapping values are not allowed in this context"
  | directiveUnknown => "found unknown directive name"
  | directiveNameMissing =>
      "could not find expected directive name"
  | directiveNameBroken =>
      "found unexpected non-alphabetical character"
  | versionPointMissing =>
      "did not find expected digit or '.' character"
  | versionMissing => "did not find expected version number"
  | versionTooLong =>
      "found extremely long version number"
  | lineNotEnded =>
      "did not find expected comment or line break"
  | blankMissing => "did not find expected whitespace"
  | blankOrBreakMissing =>
      "did not find expected whitespace or line break"
  | anchorNameMissing =>
      "did not find expected alphabetic or numeric character"
  | verbatimTagOpen => "did not find the expected '>'"
  | tagMarkMissing => "did not find expected '!'"
  | tagUriMissing => "did not find expected tag URI"
  | uriOctetMissing => "did not find URI escaped octet"
  | uriLeadingOctet =>
      "found an incorrect leading UTF-8 octet"
  | uriTrailingOctet =>
      "found an incorrect trailing UTF-8 octet"
  | indentationZero =>
      "found an indentation indicator equal to 0"
  | indentationTab =>
      "found a tab character where an indentation space " ++
        "is expected"
  | scalarTab =>
      "found a tab character that violates indentation"
  | documentIndicator =>
      "found unexpected document indicator"
  | endOfStream => "found unexpected end of stream"
  | escapeUnknown => "found unknown escape character"
  | hexadecimalMissing =>
      "did not find expected hexadecimal number"
  | codePointInvalid =>
      "found invalid Unicode character escape code"
  | colonUnexpected => "found unexpected ':'"
  | documentStartMissing =>
      "did not find expected <document start>"
  | versionRepeated => "found duplicate %YAML directive"
  | versionIncompatible =>
      "found incompatible YAML document"
  | tagDirectiveRepeated =>
      "found duplicate %TAG directive"
  | tagHandleUndefined => "found undefined tag handle"
  | contentMissing =>
      "did not find expected node content"
  | sequenceIndicatorMissing =>
      "did not find expected '-' indicator"
  | keyMissing => "did not find expected key"
  | flowSequenceOpen =>
      "did not find expected ',' or ']'"
  | flowMappingOpen =>
      "did not find expected ',' or '\x7d'"

end Problem

end Yaml

end Transclusion

------------------------------------------------------------
-- Activities
------------------------------------------------------------

namespace Transclusion

namespace Yaml

/- The construct that was being read. -/
inductive Activity where
  | simpleKey
  | nextToken
  | directive
  | versionDirective
  | tagDirective
  | tagDirectiveHandle
  | tagDirectiveTail
  | tagDirectiveUri
  | anchor
  | aliasName
  | tag
  | tagUri
  | blockScalar
  | quotedScalar
  | quotedEscape
  | plainScalar
  | node
  | blockNode
  | flowNode
  | blockSequence
  | blockMapping
  | flowSequence
  | flowMapping
  deriving DecidableEq

namespace Activity

/- What is said about a construct that was being read. -/
def message : Activity → String
  | simpleKey => "while scanning a simple key"
  | nextToken => "while scanning for the next token"
  | directive => "while scanning a directive"
  | versionDirective => "while scanning a %YAML directive"
  | tagDirective => "while scanning a %TAG directive"
  | tagDirectiveHandle => "while scanning a tag directive"
  | tagDirectiveTail => "while parsing a tag directive"
  | tagDirectiveUri => "while parsing a %TAG directive"
  | anchor => "while scanning an anchor"
  | aliasName => "while scanning an alias"
  | tag => "while scanning a tag"
  | tagUri => "while parsing a tag"
  | blockScalar => "while scanning a block scalar"
  | quotedScalar => "while scanning a quoted scalar"
  | quotedEscape => "while parsing a quoted scalar"
  | plainScalar => "while scanning a plain scalar"
  | node => "while parsing a node"
  | blockNode => "while parsing a block node"
  | flowNode => "while parsing a flow node"
  | blockSequence => "while parsing a block collection"
  | blockMapping => "while parsing a block mapping"
  | flowSequence => "while parsing a flow sequence"
  | flowMapping => "while parsing a flow mapping"

end Activity

end Yaml

end Transclusion

------------------------------------------------------------
-- Syntax Errors
------------------------------------------------------------

namespace Transclusion

namespace Yaml

/-
  A problem with the notation.  `offset` counts the bytes
  before a character that may not occur at all.
-/
structure SyntaxError where
  problem : Problem
  mark : Mark := Mark.start
  offset : Nat := 0
  context : Option (Activity × Mark) := none
  deriving DecidableEq

namespace SyntaxError

/- Where the problem is, if it is known. -/
def placeText
    (error : SyntaxError) : String :=
  if !error.mark.isStart then
    " at " ++ error.mark.text
  else if error.offset ≠ 0 then
    " at position " ++ integerText error.offset
  else
    ""

/- What was being read, and from where if elsewhere. -/
def contextText
    (error : SyntaxError) : String :=
  match error.context with
  | none => ""
  | some (activity, mark) =>
      let place :=
        if mark.isStart || mark.samePlace error.mark then ""
        else " at " ++ mark.text
      ", " ++ activity.message ++ place

/- What is said about the error. -/
def message
    (error : SyntaxError) : String :=
  error.problem.message ++ error.placeText ++
    error.contextText

end SyntaxError

end Yaml

end Transclusion
