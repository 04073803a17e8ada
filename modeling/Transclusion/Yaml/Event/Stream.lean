import Transclusion.Yaml.Event.Event

/-
  The event stream of a YAML text.

  Key definitions include:
    * `Transclusion.Yaml.Expectation`
    * `Transclusion.Yaml.Production`
    * `Transclusion.Yaml.Derive.event`
    * `Transclusion.Yaml.EventStream`
    * `Transclusion.Yaml.EventStream.ofTokens`

  An expectation says what may come next; those of the
  collections around it wait on a stack.  A node that is
  left out gives the event of an empty scalar.
-/

------------------------------------------------------------
-- Expectations
------------------------------------------------------------

namespace Transclusion

namespace Yaml

/- What may come next in a stream of tokens. -/
inductive Expectation where
  | streamStart
  | implicitDocument
  | documentStart
  | documentContent
  | documentEnd
  | blockNode
  | sequenceFirst
  | sequenceEntry
  | indentlessEntry
  | mappingFirst
  | mappingKey
  | mappingValue
  | flowSequenceFirst
  | flowSequenceEntry
  | flowPairKey
  | flowPairValue
  | flowPairEnd
  | flowMappingFirst
  | flowMappingKey
  | flowMappingValue
  | flowMappingEmpty
  | nothing
  deriving DecidableEq

/-
  The tokens not yet used, the error behind them, what is
  expected now and later, where the open collections begin,
  and the handles of tags.
-/
structure Production where
  tokens : List Token
  error : Option SyntaxError
  now : Expectation := .streamStart
  later : List Expectation := []
  starts : List Mark := []
  handles : List (List Char × TagText) := []

/- Reading of tokens that may fail. -/
abbrev Derive :=
  StateT Production (Except SyntaxError)

end Yaml

end Transclusion

------------------------------------------------------------
-- Elementary Steps
------------------------------------------------------------

namespace Transclusion

namespace Yaml

namespace Derive

/- The next token, or the error in its place. -/
def peek : Derive Token := do
  let production ← get
  match production.tokens, production.error with
  | token :: _, _ => return token
  | [], some error => throw error
  | [], none =>
      return ⟨.streamEnd, Mark.start, Mark.start⟩

/- Leave a token behind. -/
def skip : Derive Unit :=
  modify fun production =>
    { production with tokens := production.tokens.tail }

/- Leave a token behind and look at the one after it. -/
def advance : Derive Token := do
  skip
  peek

/- Set what is expected next. -/
def expect
    (now : Expectation) : Derive Unit :=
  modify fun production => { production with now := now }

/- Set what is expected after the next node. -/
def expectLater
    (later : Expectation) : Derive Unit :=
  modify fun production =>
    { production with later := later :: production.later }

/- Go back to what is expected after the node. -/
def resume : Derive Unit :=
  modify fun production =>
    { production with
      now := production.later.head?.getD .nothing
      later := production.later.tail }

/- Remember where a collection begins. -/
def openAt
    (mark : Mark) : Derive Unit :=
  modify fun production =>
    { production with starts := mark :: production.starts }

/- Forget where the innermost collection begins. -/
def close : Derive Unit :=
  modify fun production =>
    { production with starts := production.starts.tail }

/- Fail at a mark. -/
def failAt
    {α : Type}
    (problem : Problem)
    (mark : Mark) : Derive α :=
  throw { problem := problem, mark := mark }

/- Fail at a mark inside the innermost collection. -/
def failInside
    {α : Type}
    (problem : Problem)
    (activity : Activity)
    (mark : Mark) : Derive α := do
  let start := (← get).starts.head?.getD Mark.start
  throw
    { problem := problem
      mark := mark
      context := some (activity, start) }

/- The event of a node that was left out. -/
def emptyScalar
    (mark : Mark) : Derive Event :=
  return ⟨.scalar {} [] .plain, mark⟩

end Derive

end Yaml

end Transclusion

------------------------------------------------------------
-- Documents
------------------------------------------------------------

namespace Transclusion

namespace Yaml

namespace Derive

/- The handles that need no declaration. -/
def standardHandles : List (List Char × TagText) :=
  [("!".toList, ⟨"!".toList, true⟩),
    ("!!".toList, ⟨"tag:yaml.org,2002:".toList, true⟩)]

/-
  Leave directives behind and collect the handles that they
  declare.
-/
def directives :
    Nat → Bool → List (List Char × TagText) →
      Derive (List (List Char × TagText))
  | 0, _, handles => return handles
  | fuel + 1, versioned, handles => do
      let token ← peek
      match token.kind with
      | .version major minor =>
          if versioned then
            failAt .versionRepeated token.start
          if major ≠ 1 || (minor ≠ 1 && minor ≠ 2) then
            failAt .versionIncompatible token.start
          skip
          directives fuel true handles
      | .tagDirective handle lead =>
          if handles.any (·.1 == handle) then
            failAt .tagDirectiveRepeated token.start
          skip
          directives fuel versioned
            (handles ++ [(handle, lead)])
      | _ => return handles

/- Read the directives of a document. -/
def readDirectives : Derive Unit := do
  let fuel := (← get).tokens.length + 1
  let handles ← directives fuel false []
  modify fun production =>
    { production with handles := handles ++ standardHandles }

/- Leave the end marks of documents behind. -/
def skipDocumentEnds : Nat → Derive Unit
  | 0 => return ()
  | fuel + 1 => do
      if (← peek).kind = .documentEnd then
        skip
        skipDocumentEnds fuel

/- Whether a document can begin without a start mark. -/
def beginsImplicitly : TokenKind → Bool
  | .version _ _ => false
  | .tagDirective _ _ => false
  | .documentStart => false
  | .streamEnd => false
  | _ => true

/- The start of a document, or the end of the stream. -/
def documentStart
    (implicit : Bool) : Derive Event := do
  if !implicit then
    skipDocumentEnds ((← get).tokens.length + 1)
  let token ← peek
  if implicit && beginsImplicitly token.kind then
    readDirectives
    expectLater .documentEnd
    expect .blockNode
    return ⟨.documentStart, token.start⟩
  else if token.kind = .streamEnd then
    expect .nothing
    skip
    return ⟨.streamEnd, token.start⟩
  else
    readDirectives
    let next ← peek
    if next.kind ≠ .documentStart then
      failAt .documentStartMissing next.start
    expectLater .documentEnd
    expect .documentContent
    skip
    return ⟨.documentStart, token.start⟩

/- The end of a document. -/
def documentEnd : Derive Event := do
  let token ← peek
  if token.kind = .documentEnd then
    skip
  modify fun production => { production with handles := [] }
  expect .documentStart
  return ⟨.documentEnd, token.start⟩

end Derive

end Yaml

end Transclusion

------------------------------------------------------------
-- Nodes
------------------------------------------------------------

namespace Transclusion

namespace Yaml

/- A tag as it is written, with its mark. -/
structure WrittenTag where
  handle : List Char
  suffix : TagText
  mark : Mark

namespace Derive

/- The anchor in front of a node, if there is one. -/
def anchor? : Derive (Option (List Char)) := do
  match (← peek).kind with
  | .anchor name =>
      skip
      return some name
  | _ => return none

/- The tag in front of a node, if there is one. -/
def tag? : Derive (Option WrittenTag) := do
  let token ← peek
  match token.kind with
  | .tag handle suffix =>
      skip
      return some ⟨handle, suffix, token.start⟩
  | _ => return none

/- The full tag that a written one stands for. -/
def fullTag
    (start : Mark)
    (written : WrittenTag) : Derive TagText := do
  if written.handle = [] then
    return written.suffix
  else
    match (← get).handles.lookup written.handle with
    | some lead => return lead.append written.suffix
    | none =>
        throw
          { problem := .tagHandleUndefined
            mark := written.mark
            context := some (.node, start) }

/- The anchor and the tag of a node, in either order. -/
def properties
    (start : Mark) : Derive Properties := do
  let early ← anchor?
  let written ← tag?
  let anchor ←
    if early.isNone && written.isSome then anchor?
    else pure early
  match written with
  | none => return { anchor := anchor }
  | some written =>
      let tag ← fullTag start written
      return { anchor := anchor, tag := some tag }

/- A node. -/
def node
    (block indentless : Bool) : Derive Event := do
  let first ← peek
  match first.kind with
  | .aliasOf name =>
      resume
      skip
      return ⟨.aliasOf name, first.start⟩
  | _ =>
      let start := first.start
      let properties ← properties start
      let token ← peek
      match token.kind, indentless, block with
      | .blockEntry, true, _ =>
          expect .indentlessEntry
          return ⟨.sequenceStart properties, start⟩
      | .scalar text style, _, _ =>
          resume
          skip
          return ⟨.scalar properties text style, start⟩
      | .flowSequenceStart, _, _ =>
          expect .flowSequenceFirst
          return ⟨.sequenceStart properties, start⟩
      | .flowMappingStart, _, _ =>
          expect .flowMappingFirst
          return ⟨.mappingStart properties, start⟩
      | .blockSequenceStart, _, true =>
          expect .sequenceFirst
          return ⟨.sequenceStart properties, start⟩
      | .blockMappingStart, _, true =>
          expect .mappingFirst
          return ⟨.mappingStart properties, start⟩
      | _, _, _ =>
          if properties.anchor.isSome ||
              properties.tag.isSome then
            resume
            return ⟨.scalar properties [] .plain, start⟩
          else
            throw
              { problem := .contentMissing
                mark := token.start
                context :=
                  some
                    (if block then .blockNode
                      else .flowNode, start) }

/- The content of a document, which may be left out. -/
def documentContent : Derive Event := do
  let token ← peek
  if !beginsImplicitly token.kind ||
      token.kind = .documentEnd then
    resume
    emptyScalar token.start
  else
    node true false

end Derive

end Yaml

end Transclusion

------------------------------------------------------------
-- Block Collections
------------------------------------------------------------

namespace Transclusion

namespace Yaml

namespace Derive

/-
  A node behind an indicator, unless one of the given tokens
  shows that it was left out.
-/
def nodeUnless
    (ends : List TokenKind)
    (block indentless : Bool)
    (next : Expectation)
    (mark : Mark) : Derive Event := do
  let token ← peek
  if ends.contains token.kind then
    expect next
    emptyScalar mark
  else
    expectLater next
    node block indentless

/- An entry of a block sequence. -/
def sequenceEntry : Derive Event := do
  let token ← peek
  match token.kind with
  | .blockEntry =>
      skip
      nodeUnless [.blockEntry, .blockEnd] true false
        .sequenceEntry token.stop
  | .blockEnd =>
      resume
      close
      skip
      return ⟨.sequenceEnd, token.start⟩
  | _ =>
      failInside .sequenceIndicatorMissing .blockSequence
        token.start

/- An entry of a sequence at the indentation of its key. -/
def indentlessEntry : Derive Event := do
  let token ← peek
  if token.kind = .blockEntry then
    skip
    nodeUnless [.blockEntry, .key, .value, .blockEnd]
      true false .indentlessEntry token.stop
  else
    resume
    return ⟨.sequenceEnd, token.start⟩

/- A key of a block mapping. -/
def mappingKey : Derive Event := do
  let token ← peek
  match token.kind with
  | .key =>
      skip
      nodeUnless [.key, .value, .blockEnd] true true
        .mappingValue token.stop
  | .blockEnd =>
      resume
      close
      skip
      return ⟨.mappingEnd, token.start⟩
  | _ =>
      failInside .keyMissing .blockMapping token.start

/- A value of a block mapping. -/
def mappingValue : Derive Event := do
  let token ← peek
  if token.kind = .value then
    skip
    nodeUnless [.key, .value, .blockEnd] true true
      .mappingKey token.stop
  else
    expect .mappingKey
    emptyScalar token.start

end Derive

end Yaml

end Transclusion

------------------------------------------------------------
-- Flow Collections
------------------------------------------------------------

namespace Transclusion

namespace Yaml

namespace Derive

/- Leave the comma before an entry that is not the first. -/
def separator
    (problem : Problem)
    (activity : Activity) : Derive Token := do
  let token ← peek
  if token.kind ≠ .flowEntry then
    failInside problem activity token.start
  advance

/- The end of a flow collection. -/
def flowEnd
    (kind : EventKind)
    (token : Token) : Derive Event := do
  resume
  close
  skip
  return ⟨kind, token.start⟩

/- An entry of a flow sequence, or its end. -/
def flowSequenceEntry
    (first : Bool) : Derive Event := do
  let token ← peek
  if token.kind = .flowSequenceEnd then
    flowEnd .sequenceEnd token
  else
    let token ←
      if first then pure token
      else separator .flowSequenceOpen .flowSequence
    if token.kind = .key then
      expect .flowPairKey
      skip
      return ⟨.mappingStart {}, token.start⟩
    else if token.kind = .flowSequenceEnd then
      flowEnd .sequenceEnd token
    else
      expectLater .flowSequenceEntry
      node false false

/-
  The key of a single pair in a flow sequence.  The token
  that shows a key to be left out is used up.
-/
def flowPairKey : Derive Event := do
  let token ← peek
  let ends : List TokenKind :=
    [.value, .flowEntry, .flowSequenceEnd]
  if ends.contains token.kind then
    skip
    expect .flowPairValue
    emptyScalar token.stop
  else
    expectLater .flowPairValue
    node false false

/- The value of a single pair in a flow sequence. -/
def flowPairValue : Derive Event := do
  let token ← peek
  if token.kind = .value then
    let next ← advance
    nodeUnless [.flowEntry, .flowSequenceEnd] false false
      .flowPairEnd next.start
  else
    expect .flowPairEnd
    emptyScalar token.start

/- The end of a single pair in a flow sequence. -/
def flowPairEnd : Derive Event := do
  let token ← peek
  expect .flowSequenceEntry
  return ⟨.mappingEnd, token.start⟩

/- A key of a flow mapping, or its end. -/
def flowMappingKey
    (first : Bool) : Derive Event := do
  let token ← peek
  if token.kind = .flowMappingEnd then
    flowEnd .mappingEnd token
  else
    let token ←
      if first then pure token
      else separator .flowMappingOpen .flowMapping
    if token.kind = .key then
      let next ← advance
      nodeUnless [.value, .flowEntry, .flowMappingEnd]
        false false .flowMappingValue next.start
    else if token.kind = .flowMappingEnd then
      flowEnd .mappingEnd token
    else
      expectLater .flowMappingEmpty
      node false false

/- A value of a flow mapping. -/
def flowMappingValue : Derive Event := do
  let token ← peek
  if token.kind = .value then
    let next ← advance
    nodeUnless [.flowEntry, .flowMappingEnd] false false
      .flowMappingKey next.start
  else
    expect .flowMappingKey
    emptyScalar token.start

/- The value that a key without a colon lacks. -/
def flowMappingEmpty : Derive Event := do
  let token ← peek
  expect .flowMappingKey
  emptyScalar token.start

/- Enter the collection that the next token opens. -/
def enter : Derive Unit := do
  openAt (← peek).start
  skip

end Derive

end Yaml

end Transclusion

------------------------------------------------------------
-- Event Streams
------------------------------------------------------------

namespace Transclusion

namespace Yaml

namespace Derive

/- The start of the stream. -/
def streamStart : Derive Event := do
  let token ← peek
  expect .implicitDocument
  skip
  return ⟨.streamStart, token.start⟩

/- The next event. -/
def event : Derive Event := do
  match (← get).now with
  | .streamStart => streamStart
  | .implicitDocument => documentStart true
  | .documentStart => documentStart false
  | .documentContent => documentContent
  | .documentEnd => documentEnd
  | .blockNode => node true false
  | .sequenceFirst =>
      enter
      sequenceEntry
  | .sequenceEntry => sequenceEntry
  | .indentlessEntry => indentlessEntry
  | .mappingFirst =>
      enter
      mappingKey
  | .mappingKey => mappingKey
  | .mappingValue => mappingValue
  | .flowSequenceFirst =>
      enter
      flowSequenceEntry true
  | .flowSequenceEntry => flowSequenceEntry false
  | .flowPairKey => flowPairKey
  | .flowPairValue => flowPairValue
  | .flowPairEnd => flowPairEnd
  | .flowMappingFirst =>
      enter
      flowMappingKey true
  | .flowMappingKey => flowMappingKey false
  | .flowMappingValue => flowMappingValue
  | .flowMappingEmpty => flowMappingEmpty
  | .nothing => return ⟨.streamEnd, Mark.start⟩

end Derive

/-
  The events of a text, and the error behind them if it has
  one.
-/
structure EventStream where
  events : List Event
  error : Option SyntaxError := none

namespace EventStream

/- Collect events up to the end of the stream or an error. -/
def collect :
    Nat → Production → List Event → EventStream
  | 0, _, taken => ⟨taken.reverse, none⟩
  | fuel + 1, production, taken =>
      match Derive.event.run production with
      | .error error => ⟨taken.reverse, some error⟩
      | .ok (event, next) =>
          if event.kind = .streamEnd then
            ⟨(event :: taken).reverse, none⟩
          else
            collect fuel next (event :: taken)

/-
  The events of a stream of tokens.  No token gives more
  than four events.
-/
def ofTokens
    (stream : TokenStream) : EventStream :=
  collect (4 * stream.tokens.length + 8)
    { tokens := stream.tokens, error := stream.error } []

/- The events of a text. -/
def ofText
    (text : List Char) : EventStream :=
  ofTokens (TokenStream.ofText text)

end EventStream

end Yaml

end Transclusion
