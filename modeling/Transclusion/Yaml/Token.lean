import Transclusion.Yaml.Cursor

/-
  The tokens of YAML and the reading of the shorter ones:
  directives, anchors and tags.

  Key definitions include:
    * `Transclusion.Yaml.ScalarStyle`
    * `Transclusion.Yaml.TagText`
    * `Transclusion.Yaml.Token`
    * `Transclusion.Yaml.Scan.directive`
    * `Transclusion.Yaml.Scan.anchor`
    * `Transclusion.Yaml.Scan.tag`
-/

------------------------------------------------------------
-- Tokens
------------------------------------------------------------

namespace Transclusion

namespace Yaml

/- How a scalar is written. -/
inductive ScalarStyle where
  | plain
  | singleQuoted
  | doubleQuoted
  | literal
  | folded
  deriving DecidableEq

/-
  The text of a tag.  Escaped octets may be no text at all;
  then `valid` is false and a replacement stands for them.
-/
structure TagText where
  chars : List Char
  valid : Bool := true
  deriving DecidableEq

namespace TagText

/- One tag text behind another. -/
def append
    (a b : TagText) : TagText :=
  ⟨a.chars ++ b.chars, a.valid && b.valid⟩

/-
  The tag made of pieces behind some characters.  An escaped
  null character ends it.
-/
def ofPieces
    (lead : List Char)
    (pieces : List TagText) : TagText :=
  (pieces.takeWhile (·.chars ≠ [Char.ofNat 0])).foldl
    append ⟨lead, true⟩

end TagText

/- What a token is. -/
inductive TokenKind where
  | streamStart
  | streamEnd
  | version (major minor : Nat)
  | tagDirective (handle : List Char) (lead : TagText)
  | documentStart
  | documentEnd
  | blockSequenceStart
  | blockMappingStart
  | blockEnd
  | flowSequenceStart
  | flowSequenceEnd
  | flowMappingStart
  | flowMappingEnd
  | blockEntry
  | flowEntry
  | key
  | value
  | aliasOf (name : List Char)
  | anchor (name : List Char)
  | tag (handle : List Char) (suffix : TagText)
  | scalar (text : List Char) (style : ScalarStyle)
  deriving DecidableEq

/- A token between two marks. -/
structure Token where
  kind : TokenKind
  start : Mark
  stop : Mark
  deriving DecidableEq

end Yaml

end Transclusion

------------------------------------------------------------
-- Tags
------------------------------------------------------------

namespace Transclusion

namespace Yaml

/- The characters of tags, escapes included. -/
def isTagChar
    (verbatim : Bool)
    (c : Char) : Bool :=
  isWord c ||
    ";/?:@&=+$.%!~*'()".toList.contains c ||
    (verbatim && ",[]".toList.contains c)

/- How many octets a leading octet announces. -/
def octetCount?
    (octet : Nat) : Option Nat :=
  if octet < 0x80 then some 1
  else if 0xC0 ≤ octet && octet < 0xE0 then some 2
  else if 0xE0 ≤ octet && octet < 0xF0 then some 3
  else if 0xF0 ≤ octet && octet < 0xF8 then some 4
  else none

/-
  The character that octets encode.  An encoding that is
  longer than needed, or of no character, is not valid.
-/
def decodeOctets
    (octets : List Nat) : TagText :=
  let code :=
    match octets with
    | [a] => a
    | [a, b] => (a - 0xC0) * 64 + (b - 0x80)
    | [a, b, c] =>
        ((a - 0xE0) * 64 + (b - 0x80)) * 64 + (c - 0x80)
    | [a, b, c, d] =>
        (((a - 0xF0) * 64 + (b - 0x80)) * 64 +
          (c - 0x80)) * 64 + (d - 0x80)
    | _ => 0
  let char := Char.ofNat code
  if char.toNat = code ∧ char.utf8Size = octets.length then
    ⟨[char], true⟩
  else
    ⟨[Char.ofNat 0xFFFD], false⟩

namespace Scan

/- One escaped octet. -/
def uriOctet
    (activity : Activity)
    (start : Mark) : Scan Nat := do
  ensure 3
  let high := (← peekAt 1).bind hexValue?
  let low := (← peekAt 2).bind hexValue?
  match ← peek, high, low with
  | some '%', some high, some low =>
      return high * 16 + low
  | _, _, _ => fail .uriOctetMissing activity start

/- The octets after the leading one. -/
def uriTrailing
    (activity : Activity)
    (start : Mark) : Nat → Scan (List Nat)
  | 0 => return []
  | count + 1 => do
      let octet ← uriOctet activity start
      if octet / 64 ≠ 2 then
        fail .uriTrailingOctet activity start
      skip 3
      return octet :: (← uriTrailing activity start count)

/- One character given by escaped octets. -/
def uriEscape
    (activity : Activity)
    (start : Mark) : Scan TagText := do
  let octet ← uriOctet activity start
  match octetCount? octet with
  | none => fail .uriLeadingOctet activity start
  | some count =>
      skip 3
      let more ← uriTrailing activity start (count - 1)
      return decodeOctets (octet :: more)

/- The pieces of a tag: characters and escapes. -/
def uriPieces
    (verbatim : Bool)
    (activity : Activity)
    (start : Mark) : Nat → Scan (List TagText)
  | 0 => return []
  | fuel + 1 => do
      match ← peek with
      | none => return []
      | some c =>
          if !isTagChar verbatim c then
            return []
          else
            let piece ←
              if c = '%' then
                uriEscape activity start
              else do
                skip 1
                pure ⟨[c], true⟩
            ensure 1
            let more ← uriPieces verbatim activity start fuel
            return piece :: more

/-
  A tag, to which a handle that turned out to be none of its
  own may lead.  It may be empty only behind such a handle.
-/
def uri
    (verbatim : Bool)
    (lead : List Char)
    (activity : Activity)
    (start : Mark) : Scan TagText := do
  ensure 1
  let pieces ← uriPieces verbatim activity start (← fuel)
  if lead = [] && pieces = [] then
    fail .tagUriMissing activity start
  return TagText.ofPieces (lead.drop 1) pieces

/-
  The handle of a tag.  In a directive, more than a mark
  needs a mark at its end.
-/
def tagHandle
    (inDirective : Bool)
    (start : Mark) : Scan (List Char) := do
  ensure 1
  if !(← nextIs '!') then
    fail .tagMarkMissing
      (if inDirective then .tagDirectiveHandle else .tag)
      start
  skip 1
  ensure 1
  let name ← span isWord
  if ← nextIs '!' then
    skip 1
    return '!' :: name ++ ['!']
  else if inDirective && name ≠ [] then
    fail .tagMarkMissing .tagDirectiveTail start
  else
    return '!' :: name

/- A tag between angle brackets. -/
def verbatimTag
    (start : Mark) : Scan TokenKind := do
  skip 2
  let suffix ← uri true [] .tagUri start
  if !(← nextIs '>') then
    fail .verbatimTagOpen .tag start
  skip 1
  return .tag [] suffix

/-
  A tag with a handle.  A mark alone has no handle, and is
  itself the tag.
-/
def shorthandTag
    (start : Mark) : Scan TokenKind := do
  let handle ← tagHandle false start
  if 2 ≤ handle.length && handle.getLast? == some '!' then
    return .tag handle (← uri false [] .tagUri start)
  else
    let suffix ← uri false handle .tagUri start
    if suffix.chars = [] then
      return .tag [] ⟨['!'], true⟩
    else
      return .tag ['!'] suffix

/- A tag, inside a flow collection or not. -/
def tag
    (inFlow : Bool) : Scan Token := do
  let start ← mark
  ensure 2
  let kind ←
    if (← peekAt 1) = some '<' then verbatimTag start
    else shorthandTag start
  ensure 1
  let next ← peek
  if !isGap next && !(inFlow && next == some ',') then
    fail .blankOrBreakMissing .tag start
  return ⟨kind, start, ← mark⟩

end Scan

end Yaml

end Transclusion

------------------------------------------------------------
-- Anchors
------------------------------------------------------------

namespace Transclusion

namespace Yaml

namespace Scan

/- An anchor, or an alias of one. -/
def anchor
    (isAlias : Bool) : Scan Token := do
  let start ← mark
  skip 1
  ensure 1
  let name ← span isWord
  let stop ← mark
  let next ← peek
  let ends :=
    isGap next ||
      next.any fun c => "?:,]\x7d%@`".toList.contains c
  if name = [] || !ends then
    fail .anchorNameMissing
      (if isAlias then .aliasName else .anchor) start
  let kind : TokenKind :=
    if isAlias then .aliasOf name else .anchor name
  return ⟨kind, start, stop⟩

end Scan

end Yaml

end Transclusion

------------------------------------------------------------
-- Directives
------------------------------------------------------------

namespace Transclusion

namespace Yaml

namespace Scan

/- A number of a version, of nine digits at most. -/
def versionNumber
    (start : Mark) :
    Nat → Nat → Nat → Scan Nat
  | 0, _, value => return value
  | fuel + 1, length, value => do
      match (← peek).bind digitValue? with
      | some digit =>
          if 9 < length + 1 then
            fail .versionTooLong .versionDirective start
          skip 1
          ensure 1
          versionNumber start fuel (length + 1)
            (value * 10 + digit)
      | none =>
          if length = 0 then
            fail .versionMissing .versionDirective start
          return value

/- The version that a directive declares. -/
def versionDirective
    (start : Mark) : Scan TokenKind := do
  ensure 1
  skipWhite
  let major ← versionNumber start 11 0 0
  if !(← nextIs '.') then
    fail .versionPointMissing .versionDirective start
  skip 1
  ensure 1
  let minor ← versionNumber start 11 0 0
  return .version major minor

/- The handle that a directive declares. -/
def tagDirective
    (start : Mark) : Scan TokenKind := do
  ensure 1
  skipWhite
  let handle ← tagHandle true start
  ensure 1
  if !(← peek).any isWhite then
    fail .blankMissing .tagDirective start
  skipWhite
  let lead ← uri true [] .tagDirectiveUri start
  ensure 1
  if !isGap (← peek) then
    fail .blankOrBreakMissing .tagDirective start
  return .tagDirective handle lead

/- A directive, with the rest of its line. -/
def directive : Scan Token := do
  let start ← mark
  skip 1
  ensure 1
  let name ← span isWord
  if name = [] then
    fail .directiveNameMissing .directive start
  if !isGap (← peek) then
    fail .directiveNameBroken .directive start
  let kind ←
    if name = "YAML".toList then versionDirective start
    else if name = "TAG".toList then tagDirective start
    else fail .directiveUnknown .directive start
  let stop ← mark
  ensure 1
  skipWhite
  skipComment
  if !isLineEnd (← peek) then
    fail .lineNotEnded .directive start
  ensure 2
  let _ ← lineBreak
  return ⟨kind, start, stop⟩

end Scan

end Yaml

end Transclusion
