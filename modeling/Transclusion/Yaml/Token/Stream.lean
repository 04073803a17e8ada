import Transclusion.Yaml.Token.Scalar

/-
  The token stream of a YAML text.

  Key definitions include:
    * `Transclusion.Yaml.PendingKey`
    * `Transclusion.Yaml.Lexer`
    * `Transclusion.Yaml.Lexer.fetch`
    * `Transclusion.Yaml.TokenStream`
    * `Transclusion.Yaml.TokenStream.ofText`

  Indentation opens and closes collections, and a colon
  turns what came before it into a key.  What may still
  become a key is kept pending; tokens from a pending key on
  are not settled, and an error hides them.
-/

------------------------------------------------------------
-- Lexer State
------------------------------------------------------------

namespace Transclusion

namespace Yaml

/-
  A place where a key may have begun: the number of its
  first token, and whether it has to turn out a key.
-/
structure PendingKey where
  number : Nat
  required : Bool
  mark : Mark

/-
  Whether a key would reach over a line break or over more
  than 1024 bytes.
-/
def PendingKey.isStale
    (key : PendingKey)
    (mark : Mark) : Bool :=
  key.mark.line < mark.line ||
    key.mark.index + 1024 < mark.index

/-
  What has been read.  Tokens are kept last first and
  counted, `keys` holds one entry a flow collection,
  innermost first, and one more for the block context.
-/
structure Lexer where
  cursor : Cursor
  tokens : List Token := []
  count : Nat := 0
  keys : List (Option PendingKey) := [none]
  keyAllowed : Bool := true
  indent : Int := -1
  indents : List Int := []

namespace Lexer

/- Whether the cursor stands inside a flow collection. -/
def inFlow
    (lexer : Lexer) : Bool :=
  match lexer.keys with
  | _ :: _ :: _ => true
  | _ => false

/- The keys that do not reach too far. -/
def freshKeys
    (mark : Mark)
    (keys : List (Option PendingKey)) :
    List (Option PendingKey) :=
  keys.map (Option.filter fun key => !key.isStale mark)

/- How many tokens no pending key can change any more. -/
def settled
    (lexer : Lexer) : Nat :=
  lexer.keys.foldl
    (fun least key =>
      match key with
      | some pending => min least pending.number
      | none => least)
    lexer.count

/- The lexer with a token put at a place of the stream. -/
def insert
    (lexer : Lexer)
    (number : Nat)
    (token : Token) : Lexer :=
  let behind := lexer.count - number
  { lexer with
    count := lexer.count + 1
    tokens :=
      lexer.tokens.take behind ++
        token :: lexer.tokens.drop behind }

end Lexer

/- Reading that changes a lexer and may fail. -/
abbrev Lex :=
  StateT Lexer (Except SyntaxError)

end Yaml

end Transclusion

------------------------------------------------------------
-- Elementary Steps
------------------------------------------------------------

namespace Transclusion

namespace Yaml

namespace Lex

/- Read with the cursor of the lexer. -/
def scan
    {α : Type}
    (reading : Scan α) : Lex α := do
  let lexer ← get
  let (result, cursor) ← reading.run lexer.cursor
  set { lexer with cursor := cursor }
  return result

/- Add a token at the end of the stream. -/
def add
    (token : Token) : Lex Unit :=
  modify fun lexer =>
    { lexer with
      tokens := token :: lexer.tokens
      count := lexer.count + 1 }

/- Add a token without any characters. -/
def addEmpty
    (kind : TokenKind)
    (mark : Mark) : Lex Unit :=
  add ⟨kind, mark, mark⟩

/- Add a token made of so many characters. -/
def addSkipping
    (kind : TokenKind)
    (count : Nat) : Lex Unit := do
  let start ← scan Scan.mark
  scan (Scan.skip count)
  add ⟨kind, start, ← scan Scan.mark⟩

/- Allow or forbid a key to begin next. -/
def allowKey
    (allowed : Bool) : Lex Unit :=
  modify fun lexer =>
    { lexer with keyAllowed := allowed }

/- A key that had to turn out one but did not. -/
def keyError
    (key : PendingKey)
    (mark : Mark) : SyntaxError :=
  { problem := .colonMissing
    mark := mark
    context := some (.simpleKey, key.mark) }

/-
  Go on with other keys, unless one that is given up had to
  turn out a key.
-/
def giveUp
    (required : Option PendingKey)
    (keys : List (Option PendingKey)) : Lex Unit := do
  let lexer ← get
  match required with
  | some pending => throw (keyError pending lexer.cursor.mark)
  | none => set { lexer with keys := keys }

/- Give up the keys that reach too far, outermost first. -/
def dropStale : Lex Unit := do
  let lexer ← get
  let mark := lexer.cursor.mark
  giveUp
    (lexer.keys.reverse.findSome?
      (Option.filter fun key =>
        key.isStale mark && key.required))
    (Lexer.freshKeys mark lexer.keys)

/- Put a key in the place of the innermost one. -/
def replaceKey
    (key : Option PendingKey) : Lex Unit :=
  modify fun lexer =>
    { lexer with keys := key :: lexer.keys.tail }

/- Give up the innermost key. -/
def dropKey : Lex Unit := do
  let lexer ← get
  giveUp (lexer.keys.head?.join.filter (·.required))
    (lexer.keys.modifyHead fun _ => none)

/- Remember that a key may begin here. -/
def saveKey : Lex Unit := do
  let lexer ← get
  if lexer.keyAllowed then
    let mark := lexer.cursor.mark
    let required :=
      !lexer.inFlow && lexer.indent == (mark.column : Int)
    dropKey
    replaceKey
      (some ⟨lexer.count, required, mark⟩)

/-
  Open a collection if the column is indented, in front of
  the token of a number.
-/
def indentTo
    (column number : Nat)
    (kind : TokenKind)
    (mark : Mark) : Lex Unit := do
  let lexer ← get
  if !lexer.inFlow && lexer.indent < (column : Int) then
    set
      (Lexer.insert
        { lexer with
          indent := column
          indents := lexer.indent :: lexer.indents }
        number ⟨kind, mark, mark⟩)

/- Close the collections indented deeper than a column. -/
def closeTo
    (column : Int)
    (mark : Mark) : List Int → Lex Unit
  | [] => return ()
  | outer :: more => do
      let lexer ← get
      if column < lexer.indent then
        set { lexer with indent := outer, indents := more }
        addEmpty .blockEnd mark
        closeTo column mark more

/- Close block collections, but none inside a flow one. -/
def unindentTo
    (column : Int) : Lex Unit := do
  let lexer ← get
  if !lexer.inFlow then
    closeTo column lexer.cursor.mark lexer.indents

end Lex

end Yaml

end Transclusion

------------------------------------------------------------
-- Tokens in Context
------------------------------------------------------------

namespace Transclusion

namespace Yaml

namespace Lex

/- Close everything before a token of the stream itself. -/
def closeDocument : Lex Unit := do
  unindentTo (-1)
  dropKey
  allowKey false

/- The end of the stream, on a line of its own. -/
def streamEnd : Lex Unit := do
  modify fun lexer =>
    let mark := lexer.cursor.mark
    if mark.column = 0 then lexer
    else
      { lexer with
        cursor :=
          { lexer.cursor with
            mark :=
              { mark with
                line := mark.line + 1, column := 0 } } }
  closeDocument
  addEmpty .streamEnd (← scan Scan.mark)

/- A directive. -/
def directive : Lex Unit := do
  closeDocument
  add (← scan Scan.directive)

/- The start or the end of a document. -/
def documentIndicator
    (kind : TokenKind) : Lex Unit := do
  closeDocument
  addSkipping kind 3

/- The start of a flow collection. -/
def flowStart
    (kind : TokenKind) : Lex Unit := do
  saveKey
  modify fun lexer =>
    { lexer with keys := none :: lexer.keys }
  allowKey true
  addSkipping kind 1

/- The end of a flow collection. -/
def flowEnd
    (kind : TokenKind) : Lex Unit := do
  dropKey
  modify fun lexer =>
    if lexer.inFlow then
      { lexer with keys := lexer.keys.tail }
    else
      lexer
  allowKey false
  addSkipping kind 1

/- The comma of a flow collection. -/
def flowEntry : Lex Unit := do
  dropKey
  allowKey true
  addSkipping .flowEntry 1

/- Open a collection in which no pending key is involved. -/
def indentHere
    (kind : TokenKind)
    (problem : Problem) : Lex Unit := do
  let lexer ← get
  if !lexer.inFlow then
    if !lexer.keyAllowed then
      scan (Scan.failHere problem)
    let mark := lexer.cursor.mark
    indentTo mark.column lexer.count kind mark

/- The dash of a block sequence. -/
def blockEntry : Lex Unit := do
  indentHere .blockSequenceStart .sequenceEntryMisplaced
  dropKey
  allowKey true
  addSkipping .blockEntry 1

/- The question mark of a key. -/
def key : Lex Unit := do
  indentHere .blockMappingStart .keyMisplaced
  dropKey
  allowKey (!(← get).inFlow)
  addSkipping .key 1

/- The colon of a value, which settles a pending key. -/
def value : Lex Unit := do
  let lexer ← get
  match lexer.keys.head? with
  | some (some pending) =>
      set
        (lexer.insert pending.number
          ⟨.key, pending.mark, pending.mark⟩)
      indentTo pending.mark.column pending.number
        .blockMappingStart pending.mark
      replaceKey none
      allowKey false
  | _ =>
      indentHere .blockMappingStart .valueMisplaced
      allowKey (!lexer.inFlow)
  addSkipping .value 1

/- A token that may begin a key. -/
def keyStart
    (reading : Scan Token) : Lex Unit := do
  saveKey
  allowKey false
  add (← scan reading)

/- A block scalar. -/
def blockScalar
    (folded : Bool) : Lex Unit := do
  dropKey
  allowKey true
  let lexer ← get
  add (← scan (Scan.blockScalar lexer.indent folded))

/- A plain scalar. -/
def plainScalar : Lex Unit := do
  saveKey
  allowKey false
  let lexer ← get
  let (token, broken) ←
    scan (Scan.plainScalar lexer.indent lexer.inFlow)
  if broken then
    allowKey true
  add token

end Lex

end Yaml

end Transclusion

------------------------------------------------------------
-- The Next Token
------------------------------------------------------------

namespace Transclusion

namespace Yaml

namespace Lex

/-
  Leave blanks, comments and line breaks behind, and a byte
  order mark at the start of any line.  The mark takes up a
  column.
-/
def skipToToken : Nat → Lex Unit
  | 0 => return ()
  | fuel + 1 => do
      scan (Scan.ensure 1)
      let lexer ← get
      let byteOrderMark := Char.ofNat 0xFEFF
      if lexer.cursor.mark.column == 0 &&
          (← scan (Scan.nextIs byteOrderMark)) then
        scan (Scan.skip 1)
      scan (Scan.ensure 1)
      let tabs := lexer.inFlow || !lexer.keyAllowed
      let _ ←
        scan (Scan.span fun c =>
          c == ' ' || (tabs && c == '\t'))
      scan Scan.skipComment
      if (← scan Scan.peek).any isBreak then
        scan (Scan.ensure 2)
        let _ ← scan Scan.lineBreak
        if !lexer.inFlow then
          allowKey true
        skipToToken fuel

/- The characters that begin no plain scalar. -/
def isIndicator
    (c : Char) : Bool :=
  "-?:,[]\x7b\x7d#&*!|>'\"%@`".toList.contains c

/- Whether a plain scalar begins with a character. -/
def startsPlain
    (inFlow : Bool)
    (c : Char)
    (after : Option Char) : Bool :=
  !(isWhite c || isBreak c || isIndicator c) ||
    (c == '-' && !after.any isWhite) ||
    (!inFlow && (c == '?' || c == ':') && !isGap after)

/- The token that begins with a character. -/
def dispatch
    (c : Char) : Lex Unit := do
  let inFlow := (← get).inFlow
  let after ← scan (Scan.peekAt 1)
  let gap := isGap after
  if c == '[' then flowStart .flowSequenceStart
  else if c == '{' then flowStart .flowMappingStart
  else if c == ']' then flowEnd .flowSequenceEnd
  else if c == '}' then flowEnd .flowMappingEnd
  else if c == ',' then flowEntry
  else if c == '-' && gap then blockEntry
  else if c == '?' && (inFlow || gap) then key
  else if c == ':' && (inFlow || gap) then value
  else if c == '*' then keyStart (Scan.anchor true)
  else if c == '&' then keyStart (Scan.anchor false)
  else if c == '!' then keyStart (Scan.tag inFlow)
  else if c == '|' && !inFlow then blockScalar false
  else if c == '>' && !inFlow then blockScalar true
  else if c == '\'' then keyStart (Scan.quotedScalar true)
  else if c == '"' then keyStart (Scan.quotedScalar false)
  else if startsPlain inFlow c after then plainScalar
  else
    scan do
      Scan.fail .noTokenStart .nextToken (← Scan.mark)

/- Read the next token, and those that it settles. -/
def fetch : Lex Unit := do
  skipToToken (← scan Scan.fuel)
  dropStale
  let mark ← scan Scan.mark
  unindentTo mark.column
  scan (Scan.ensure 4)
  match ← scan Scan.peek with
  | none => streamEnd
  | some c =>
      if mark.column == 0 && c == '%' then
        directive
      else if ← scan (Scan.atIndicator '-') then
        documentIndicator .documentStart
      else if ← scan (Scan.atIndicator '.') then
        documentIndicator .documentEnd
      else
        dispatch c
  dropStale

end Lex

end Yaml

end Transclusion

------------------------------------------------------------
-- Token Streams
------------------------------------------------------------

namespace Transclusion

namespace Yaml

/-
  The tokens of a text, and the error behind them if it has
  one.
-/
structure TokenStream where
  tokens : List Token
  error : Option SyntaxError := none

namespace TokenStream

/- Fetch tokens up to the end of the stream or an error. -/
def collect : Nat → Lexer → TokenStream
  | 0, lexer => ⟨lexer.tokens.reverse, none⟩
  | fuel + 1, lexer =>
      match Lex.fetch.run lexer with
      | .error error =>
          { tokens := lexer.tokens.reverse.take lexer.settled
            error := some error }
      | .ok (_, next) =>
          match next.tokens.head? with
          | some ⟨.streamEnd, _, _⟩ =>
              ⟨next.tokens.reverse, none⟩
          | _ => collect fuel next

/- The tokens of a text. -/
def ofText
    (text : List Char) : TokenStream :=
  let cursor := Cursor.ofText text
  match (Scan.ensure 1).run cursor with
  | .error error => { tokens := [], error := some error }
  | .ok _ =>
      let start := Mark.start
      collect (text.length + 2)
        { cursor := cursor
          tokens := [⟨.streamStart, start, start⟩]
          count := 1 }

end TokenStream

end Yaml

end Transclusion
