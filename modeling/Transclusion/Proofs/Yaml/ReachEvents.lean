import Transclusion.Proofs.Yaml.ReachStream
import Transclusion.Yaml.Event.Stream

/-
  How far down the events of a text get.

  Key definitions include:
    * `Transclusion.Yaml.Production.IsWithin`
    * `Transclusion.Yaml.Derive.within`

  Key theorems include:
    * `Transclusion.Yaml.Derive.keeps_event`
    * `Transclusion.Yaml.EventStream.isWithin_ofText`

  An event and an error are where a token begins or ends.
-/

------------------------------------------------------------
-- Productions
------------------------------------------------------------

namespace Transclusion

namespace Yaml

/- Tokens not yet used that are within so many lines. -/
structure Production.IsWithin
    (production : Production)
    (limit : Nat) : Prop where
  tokens : ∀ token ∈ production.tokens, token.IsWithin limit
  error :
    ∀ error, production.error = some error →
      error.mark.IsWithin limit

namespace Derive

variable {limit : Nat}
variable {production : Production}

/-
  A production stays within so many lines, and what is at
  fault is within them too.
-/
@[reducible]
def within
    (limit : Nat) : Guard SyntaxError Production where
  kept production := production.IsWithin limit
  fault error := error.mark.IsWithin limit

variable (hProduction : production.IsWithin limit)

include hProduction

/- The next token is within the lines. -/
theorem keeps_peek :
    Keeps (within limit) peek production
      fun token _ => token.IsWithin limit := by
  have hStart := Mark.isWithin_start limit
  unfold peek
  rw [keeps_get]
  split
  · rename_i token rest _ hTokens
    refine keeps_pure hProduction ?_
    apply hProduction.tokens
    rw [hTokens]
    exact List.mem_cons_self
  · rename_i error _ hError
    exact hProduction.error error hError
  · exact keeps_pure hProduction ⟨hStart, hStart⟩

/- A token is left behind. -/
theorem keeps_skip :
    Keeps (within limit) skip production fun _ _ => True := by
  refine ⟨⟨?_, hProduction.error⟩, trivial⟩
  intro token hToken
  exact
    hProduction.tokens token (List.mem_of_mem_tail hToken)

/- The token after the next one is within the lines. -/
theorem keeps_advance :
    Keeps (within limit) advance production
      fun token _ => token.IsWithin limit := by
  apply (keeps_skip hProduction).bind
  intro _ after hAfter _
  exact keeps_peek hAfter

/- It is set what is expected next. -/
theorem keeps_expect
    (now : Expectation) :
    Keeps (within limit) (expect now) production
      fun _ _ => True :=
  ⟨⟨hProduction.tokens, hProduction.error⟩, trivial⟩

/- It is set what is expected after the next node. -/
theorem keeps_expectLater
    (later : Expectation) :
    Keeps (within limit) (expectLater later) production
      fun _ _ => True :=
  ⟨⟨hProduction.tokens, hProduction.error⟩, trivial⟩

/- It is gone back to what is expected after the node. -/
theorem keeps_resume :
    Keeps (within limit) resume production fun _ _ => True :=
  ⟨⟨hProduction.tokens, hProduction.error⟩, trivial⟩

/- It is remembered where a collection begins. -/
theorem keeps_openAt
    (mark : Mark) :
    Keeps (within limit) (openAt mark) production
      fun _ _ => True :=
  ⟨⟨hProduction.tokens, hProduction.error⟩, trivial⟩

/- It is forgotten where a collection begins. -/
theorem keeps_close :
    Keeps (within limit) close production fun _ _ => True :=
  ⟨⟨hProduction.tokens, hProduction.error⟩, trivial⟩

/- An empty scalar is within the lines. -/
theorem keeps_emptyScalar
    {mark : Mark}
    (hMark : mark.IsWithin limit) :
    Keeps (within limit) (emptyScalar mark) production
      fun event _ => event.mark.IsWithin limit :=
  keeps_pure hProduction hMark

end Derive

end Yaml

end Transclusion

------------------------------------------------------------
-- Documents
------------------------------------------------------------

namespace Transclusion

namespace Yaml

namespace Derive

variable {limit : Nat}
variable {production : Production}
variable (hProduction : production.IsWithin limit)

include hProduction

/- Directives are left behind. -/
theorem keeps_directives
    (fuel : Nat)
    (versioned : Bool)
    (handles : List (List Char × TagText)) :
    Keeps (within limit) (directives fuel versioned handles)
      production fun _ _ => True := by
  induction fuel
      generalizing production versioned handles with
  | zero => exact keeps_pure hProduction trivial
  | succ fuel ih =>
      unfold directives
      apply (keeps_peek hProduction).bind
      intro token after hAfter hToken
      split
      · dsimp only
        split
        · exact hToken.start
        · split
          · exact hToken.start
          · apply (keeps_skip hAfter).bind
            intro _ next hNext _
            exact ih hNext _ _
      · dsimp only
        split
        · exact hToken.start
        · apply (keeps_skip hAfter).bind
          intro _ next hNext _
          exact ih hNext _ _
      · exact keeps_pure hAfter trivial

/- The directives of a document are left behind. -/
theorem keeps_readDirectives :
    Keeps (within limit) readDirectives production
      fun _ _ => True := by
  unfold readDirectives
  rw [keeps_get]
  apply (keeps_directives hProduction _ _ _).bind
  intro handles after hAfter _
  exact ⟨⟨hAfter.tokens, hAfter.error⟩, trivial⟩

/- The end marks of documents are left behind. -/
theorem keeps_skipDocumentEnds
    (fuel : Nat) :
    Keeps (within limit) (skipDocumentEnds fuel) production
      fun _ _ => True := by
  induction fuel generalizing production with
  | zero => exact keeps_pure hProduction trivial
  | succ fuel ih =>
      unfold skipDocumentEnds
      apply (keeps_peek hProduction).bind
      intro token after hAfter hToken
      split
      · apply (keeps_skip hAfter).bind
        intro _ next hNext _
        exact ih hNext
      · exact keeps_pure hAfter trivial

/- The start of a document is within the lines. -/
theorem keeps_documentStart
    (implicit : Bool) :
    Keeps (within limit) (documentStart implicit) production
      fun event _ => event.mark.IsWithin limit := by
  have hRest
      {after : Production}
      (hAfter : after.IsWithin limit) :
      Keeps (within limit)
        (do
          let token ← peek
          if implicit && beginsImplicitly token.kind then
            readDirectives
            expectLater .documentEnd
            expect .blockNode
            return (⟨.documentStart, token.start⟩ : Event)
          else if token.kind = .streamEnd then
            expect .nothing
            skip
            return ⟨.streamEnd, token.start⟩
          else
            readDirectives
            let next ← peek
            if next.kind ≠ .documentStart then
              failAt .documentStartMissing next.start
            expectLater .documentEnd
            expect .documentContent
            skip
            return ⟨.documentStart, token.start⟩)
        after fun event _ => event.mark.IsWithin limit := by
    apply (keeps_peek hAfter).bind
    intro token now hNow hToken
    split
    · apply (keeps_readDirectives hNow).bind
      intro _ read hRead _
      apply (keeps_expectLater hRead _).bind
      intro _ later hLater _
      apply (keeps_expect hLater _).bind
      intro _ last hLast _
      exact keeps_pure hLast hToken.start
    · split
      · apply (keeps_expect hNow _).bind
        intro _ later hLater _
        apply (keeps_skip hLater).bind
        intro _ last hLast _
        exact keeps_pure hLast hToken.start
      · apply (keeps_readDirectives hNow).bind
        intro _ read hRead _
        apply (keeps_peek hRead).bind
        intro next seen hSeen hNext
        dsimp only
        split
        · exact hNext.start
        · apply (keeps_expectLater hSeen _).bind
          intro _ later hLater _
          apply (keeps_expect hLater _).bind
          intro _ expected hExpected _
          apply (keeps_skip hExpected).bind
          intro _ last hLast _
          exact keeps_pure hLast hToken.start
  unfold documentStart
  dsimp only
  split
  · rw [keeps_get]
    apply (keeps_skipDocumentEnds hProduction _).bind
    intro _ after hAfter _
    exact hRest hAfter
  · exact hRest hProduction

/- The end of a document is within the lines. -/
theorem keeps_documentEnd :
    Keeps (within limit) documentEnd production
      fun event _ => event.mark.IsWithin limit := by
  have hRest
      {mark : Mark}
      (hMark : mark.IsWithin limit)
      {after : Production}
      (hAfter : after.IsWithin limit) :
      Keeps (within limit)
        (do
          modify fun production =>
            { production with handles := [] }
          expect .documentStart
          return (⟨.documentEnd, mark⟩ : Event))
        after fun event _ => event.mark.IsWithin limit := by
    have hModified :
        Keeps (within limit)
          (modify fun production =>
            { production with handles := [] })
          after fun _ _ => True :=
      ⟨⟨hAfter.tokens, hAfter.error⟩, trivial⟩
    apply hModified.bind
    intro _ cleared hCleared _
    apply (keeps_expect hCleared _).bind
    intro _ last hLast _
    exact keeps_pure hLast hMark
  unfold documentEnd
  apply (keeps_peek hProduction).bind
  intro token after hAfter hToken
  dsimp only
  split
  · apply (keeps_skip hAfter).bind
    intro _ next hNext _
    exact hRest hToken.start hNext
  · exact hRest hToken.start hAfter

end Derive

end Yaml

end Transclusion

------------------------------------------------------------
-- Nodes
------------------------------------------------------------

namespace Transclusion

namespace Yaml

namespace Derive

variable {limit : Nat}
variable {production : Production}
variable (hProduction : production.IsWithin limit)

include hProduction

/- An anchor is left behind. -/
theorem keeps_anchor? :
    Keeps (within limit) anchor? production
      fun _ _ => True := by
  unfold anchor?
  apply (keeps_peek hProduction).bind
  intro token after hAfter _hToken
  split
  · apply (keeps_skip hAfter).bind
    intro _ next hNext _
    exact keeps_pure hNext trivial
  · exact keeps_pure hAfter trivial

/- A tag is left behind, and it is within the lines. -/
theorem keeps_tag? :
    Keeps (within limit) tag? production fun written _ =>
      ∀ tag, written = some tag →
        tag.mark.IsWithin limit := by
  unfold tag?
  apply (keeps_peek hProduction).bind
  intro token after hAfter hToken
  split
  · apply (keeps_skip hAfter).bind
    intro _ next hNext _
    refine keeps_pure hNext ?_
    intro tag hTag
    cases hTag
    exact hToken.start
  · refine keeps_pure hAfter ?_
    intro tag hNone
    cases hNone

/- A tag is not found fault with elsewhere. -/
theorem keeps_fullTag
    {written : WrittenTag}
    (hWritten : written.mark.IsWithin limit)
    (start : Mark) :
    Keeps (within limit) (fullTag start written) production
      fun _ _ => True := by
  unfold fullTag
  split
  · exact keeps_pure hProduction trivial
  · rw [keeps_get]
    split
    · exact keeps_pure hProduction trivial
    · exact hWritten

/- The properties of a node are left behind. -/
theorem keeps_properties
    (start : Mark) :
    Keeps (within limit) (properties start) production
      fun _ _ => True := by
  have hTagged
      {written : WrittenTag}
      (hWritten : written.mark.IsWithin limit)
      (anchor : Option (List Char))
      {after : Production}
      (hAfter : after.IsWithin limit) :
      Keeps (within limit)
        (do
          let tag ← fullTag start written
          return ({ anchor := anchor, tag := some tag } :
            Properties))
        after fun _ _ => True := by
    apply (keeps_fullTag hAfter hWritten start).bind
    intro tag next hNext _
    exact keeps_pure hNext trivial
  unfold properties
  apply (keeps_anchor? hProduction).bind
  intro early after hAfter _
  apply (keeps_tag? hAfter).bind
  intro written next hNext hWritten
  dsimp only
  split
  · apply (keeps_anchor? hNext).bind
    intro anchor last hLast _
    cases written with
    | none => exact keeps_pure hLast trivial
    | some tag => exact hTagged (hWritten tag rfl) _ hLast
  · cases written with
    | none => exact keeps_pure hNext trivial
    | some tag => exact hTagged (hWritten tag rfl) _ hNext

/- A node is within the lines. -/
theorem keeps_node
    (block indentless : Bool) :
    Keeps (within limit) (node block indentless) production
      fun event _ => event.mark.IsWithin limit := by
  unfold node
  apply (keeps_peek hProduction).bind
  intro first after hAfter hFirst
  have hStart := hFirst.start
  split
  · apply (keeps_resume hAfter).bind
    intro _ resumed hResumed _
    apply (keeps_skip hResumed).bind
    intro _ last hLast _
    exact keeps_pure hLast hStart
  · apply (keeps_properties hAfter _).bind
    intro properties behind hBehind _
    apply (keeps_peek hBehind).bind
    intro token now hNow hToken
    have hExpect
        (now' : Expectation)
        (kind : EventKind) :
        Keeps (within limit)
          (do
            expect now'
            return (⟨kind, first.start⟩ : Event))
          now fun event _ => event.mark.IsWithin limit := by
      apply (keeps_expect hNow now').bind
      intro _ last hLast _
      exact keeps_pure hLast hStart
    split
    · exact hExpect _ _
    · apply (keeps_resume hNow).bind
      intro _ resumed hResumed _
      apply (keeps_skip hResumed).bind
      intro _ last hLast _
      exact keeps_pure hLast hStart
    · exact hExpect _ _
    · exact hExpect _ _
    · exact hExpect _ _
    · exact hExpect _ _
    · split
      · apply (keeps_resume hNow).bind
        intro _ last hLast _
        exact keeps_pure hLast hStart
      · exact hToken.start

/- The content of a document is within the lines. -/
theorem keeps_documentContent :
    Keeps (within limit) documentContent production
      fun event _ => event.mark.IsWithin limit := by
  unfold documentContent
  apply (keeps_peek hProduction).bind
  intro token after hAfter hToken
  split
  · apply (keeps_resume hAfter).bind
    intro _ last hLast _
    exact keeps_emptyScalar hLast hToken.start
  · exact keeps_node hAfter true false

end Derive

end Yaml

end Transclusion

------------------------------------------------------------
-- Collections
------------------------------------------------------------

namespace Transclusion

namespace Yaml

namespace Derive

variable {limit : Nat}
variable {production : Production}
variable (hProduction : production.IsWithin limit)

include hProduction

/- A node that may be left out is within the lines. -/
theorem keeps_nodeUnless
    {mark : Mark}
    (hMark : mark.IsWithin limit)
    (ends : List TokenKind)
    (block indentless : Bool)
    (next : Expectation) :
    Keeps (within limit)
      (nodeUnless ends block indentless next mark)
      production fun event _ => event.mark.IsWithin limit := by
  unfold nodeUnless
  apply (keeps_peek hProduction).bind
  intro token after hAfter hToken
  split
  · apply (keeps_expect hAfter next).bind
    intro _ last hLast _
    exact keeps_emptyScalar hLast hMark
  · apply (keeps_expectLater hAfter next).bind
    intro _ last hLast _
    exact keeps_node hLast block indentless

/- The end of a collection is within the lines. -/
theorem keeps_collectionEnd
    {mark : Mark}
    (hMark : mark.IsWithin limit)
    (kind : EventKind) :
    Keeps (within limit)
      (do
        resume
        close
        skip
        return (⟨kind, mark⟩ : Event))
      production fun event _ => event.mark.IsWithin limit := by
  apply (keeps_resume hProduction).bind
  intro _ resumed hResumed _
  apply (keeps_close hResumed).bind
  intro _ closed hClosed _
  apply (keeps_skip hClosed).bind
  intro _ last hLast _
  exact keeps_pure hLast hMark

/- An entry of a block sequence is within the lines. -/
theorem keeps_sequenceEntry :
    Keeps (within limit) sequenceEntry production
      fun event _ => event.mark.IsWithin limit := by
  unfold sequenceEntry
  apply (keeps_peek hProduction).bind
  intro token after hAfter hToken
  split
  · apply (keeps_skip hAfter).bind
    intro _ last hLast _
    exact keeps_nodeUnless hLast hToken.stop _ _ _ _
  · exact keeps_collectionEnd hAfter hToken.start _
  · exact hToken.start

/- An entry at the indentation of its key is within the lines. -/
theorem keeps_indentlessEntry :
    Keeps (within limit) indentlessEntry production
      fun event _ => event.mark.IsWithin limit := by
  unfold indentlessEntry
  apply (keeps_peek hProduction).bind
  intro token after hAfter hToken
  split
  · apply (keeps_skip hAfter).bind
    intro _ last hLast _
    exact keeps_nodeUnless hLast hToken.stop _ _ _ _
  · apply (keeps_resume hAfter).bind
    intro _ last hLast _
    exact keeps_pure hLast hToken.start

/- A key of a block mapping is within the lines. -/
theorem keeps_mappingKey :
    Keeps (within limit) mappingKey production
      fun event _ => event.mark.IsWithin limit := by
  unfold mappingKey
  apply (keeps_peek hProduction).bind
  intro token after hAfter hToken
  split
  · apply (keeps_skip hAfter).bind
    intro _ last hLast _
    exact keeps_nodeUnless hLast hToken.stop _ _ _ _
  · exact keeps_collectionEnd hAfter hToken.start _
  · exact hToken.start

/- A value of a block mapping is within the lines. -/
theorem keeps_mappingValue :
    Keeps (within limit) mappingValue production
      fun event _ => event.mark.IsWithin limit := by
  unfold mappingValue
  apply (keeps_peek hProduction).bind
  intro token after hAfter hToken
  split
  · apply (keeps_skip hAfter).bind
    intro _ last hLast _
    exact keeps_nodeUnless hLast hToken.stop _ _ _ _
  · apply (keeps_expect hAfter _).bind
    intro _ last hLast _
    exact keeps_emptyScalar hLast hToken.start

/- A comma is within the lines. -/
theorem keeps_separator
    (problem : Problem)
    (activity : Activity) :
    Keeps (within limit)
      (separator problem activity) production
      fun token _ => token.IsWithin limit := by
  unfold separator
  apply (keeps_peek hProduction).bind
  intro token after hAfter hToken
  dsimp only
  split
  · exact hToken.start
  · exact keeps_advance hAfter

/- An entry of a flow sequence is within the lines. -/
theorem keeps_flowSequenceEntry
    (first : Bool) :
    Keeps (within limit) (flowSequenceEntry first) production
      fun event _ => event.mark.IsWithin limit := by
  have hRest
      {token : Token}
      (hToken : token.IsWithin limit)
      {after : Production}
      (hAfter : after.IsWithin limit) :
      Keeps (within limit)
        (if token.kind = .key then do
            expect .flowPairKey
            skip
            return (⟨.mappingStart {}, token.start⟩ : Event)
          else if token.kind = .flowSequenceEnd then
            flowEnd .sequenceEnd token
          else do
            expectLater .flowSequenceEntry
            node false false)
        after fun event _ => event.mark.IsWithin limit := by
    split
    · apply (keeps_expect hAfter _).bind
      intro _ expected hExpected _
      apply (keeps_skip hExpected).bind
      intro _ last hLast _
      exact keeps_pure hLast hToken.start
    · split
      · exact keeps_collectionEnd hAfter hToken.start _
      · apply (keeps_expectLater hAfter _).bind
        intro _ last hLast _
        exact keeps_node hLast false false
  unfold flowSequenceEntry
  apply (keeps_peek hProduction).bind
  intro token after hAfter hToken
  split
  · exact keeps_collectionEnd hAfter hToken.start _
  · dsimp only
    split
    · exact hRest hToken hAfter
    · apply (keeps_separator hAfter _ _).bind
      intro next last hLast hNext
      exact hRest hNext hLast

/- The key of a single pair is within the lines. -/
theorem keeps_flowPairKey :
    Keeps (within limit) flowPairKey production
      fun event _ => event.mark.IsWithin limit := by
  unfold flowPairKey
  apply (keeps_peek hProduction).bind
  intro token after hAfter hToken
  dsimp only
  split
  · apply (keeps_skip hAfter).bind
    intro _ skipped hSkipped _
    apply (keeps_expect hSkipped _).bind
    intro _ last hLast _
    exact keeps_emptyScalar hLast hToken.stop
  · apply (keeps_expectLater hAfter _).bind
    intro _ last hLast _
    exact keeps_node hLast false false

/- The value of a single pair is within the lines. -/
theorem keeps_flowPairValue :
    Keeps (within limit) flowPairValue production
      fun event _ => event.mark.IsWithin limit := by
  unfold flowPairValue
  apply (keeps_peek hProduction).bind
  intro token after hAfter hToken
  split
  · apply (keeps_advance hAfter).bind
    intro next last hLast hNext
    exact keeps_nodeUnless hLast hNext.start _ _ _ _
  · apply (keeps_expect hAfter _).bind
    intro _ last hLast _
    exact keeps_emptyScalar hLast hToken.start

/- The end of a single pair is within the lines. -/
theorem keeps_flowPairEnd :
    Keeps (within limit) flowPairEnd production
      fun event _ => event.mark.IsWithin limit := by
  unfold flowPairEnd
  apply (keeps_peek hProduction).bind
  intro token after hAfter hToken
  apply (keeps_expect hAfter _).bind
  intro _ last hLast _
  exact keeps_pure hLast hToken.start

/- A key of a flow mapping is within the lines. -/
theorem keeps_flowMappingKey
    (first : Bool) :
    Keeps (within limit) (flowMappingKey first) production
      fun event _ => event.mark.IsWithin limit := by
  have hRest
      {token : Token}
      (hToken : token.IsWithin limit)
      {after : Production}
      (hAfter : after.IsWithin limit) :
      Keeps (within limit)
        (if token.kind = .key then do
            let next ← advance
            nodeUnless [.value, .flowEntry, .flowMappingEnd]
              false false .flowMappingValue next.start
          else if token.kind = .flowMappingEnd then
            flowEnd .mappingEnd token
          else do
            expectLater .flowMappingEmpty
            node false false)
        after fun event _ => event.mark.IsWithin limit := by
    split
    · apply (keeps_advance hAfter).bind
      intro next last hLast hNext
      exact keeps_nodeUnless hLast hNext.start _ _ _ _
    · split
      · exact keeps_collectionEnd hAfter hToken.start _
      · apply (keeps_expectLater hAfter _).bind
        intro _ last hLast _
        exact keeps_node hLast false false
  unfold flowMappingKey
  apply (keeps_peek hProduction).bind
  intro token after hAfter hToken
  split
  · exact keeps_collectionEnd hAfter hToken.start _
  · dsimp only
    split
    · exact hRest hToken hAfter
    · apply (keeps_separator hAfter _ _).bind
      intro next last hLast hNext
      exact hRest hNext hLast

/- A value of a flow mapping is within the lines. -/
theorem keeps_flowMappingValue :
    Keeps (within limit) flowMappingValue production
      fun event _ => event.mark.IsWithin limit := by
  unfold flowMappingValue
  apply (keeps_peek hProduction).bind
  intro token after hAfter hToken
  split
  · apply (keeps_advance hAfter).bind
    intro next last hLast hNext
    exact keeps_nodeUnless hLast hNext.start _ _ _ _
  · apply (keeps_expect hAfter _).bind
    intro _ last hLast _
    exact keeps_emptyScalar hLast hToken.start

/- The value that a key lacks is within the lines. -/
theorem keeps_flowMappingEmpty :
    Keeps (within limit) flowMappingEmpty production
      fun event _ => event.mark.IsWithin limit := by
  unfold flowMappingEmpty
  apply (keeps_peek hProduction).bind
  intro token after hAfter hToken
  apply (keeps_expect hAfter _).bind
  intro _ last hLast _
  exact keeps_emptyScalar hLast hToken.start

/- A collection is entered. -/
theorem keeps_enter :
    Keeps (within limit) enter production
      fun _ _ => True := by
  unfold enter
  apply (keeps_peek hProduction).bind
  intro token after hAfter _hToken
  apply (keeps_openAt hAfter _).bind
  intro _ last hLast _
  exact keeps_skip hLast

end Derive

end Yaml

end Transclusion

------------------------------------------------------------
-- Event Streams
------------------------------------------------------------

namespace Transclusion

namespace Yaml

namespace Derive

variable {limit : Nat}
variable {production : Production}
variable (hProduction : production.IsWithin limit)

include hProduction

/- The start of the stream is within the lines. -/
theorem keeps_streamStart :
    Keeps (within limit) streamStart production
      fun event _ => event.mark.IsWithin limit := by
  unfold streamStart
  apply (keeps_peek hProduction).bind
  intro token after hAfter hToken
  apply (keeps_expect hAfter _).bind
  intro _ expected hExpected _
  apply (keeps_skip hExpected).bind
  intro _ last hLast _
  exact keeps_pure hLast hToken.start

/- The next event is within the lines. -/
theorem keeps_event :
    Keeps (within limit) event production
      fun event _ => event.mark.IsWithin limit := by
  have hEnter
      {entry : Derive Event}
      (hEntry :
        ∀ after : Production, after.IsWithin limit →
          Keeps (within limit) entry after
            fun event _ => event.mark.IsWithin limit) :
      Keeps (within limit)
        (do
          enter
          entry)
        production fun event _ => event.mark.IsWithin limit := by
    apply (keeps_enter hProduction).bind
    intro _ after hAfter _
    exact hEntry after hAfter
  unfold event
  rw [keeps_get]
  split
  · exact keeps_streamStart hProduction
  · exact keeps_documentStart hProduction true
  · exact keeps_documentStart hProduction false
  · exact keeps_documentContent hProduction
  · exact keeps_documentEnd hProduction
  · exact keeps_node hProduction true false
  · exact hEnter fun _ => keeps_sequenceEntry
  · exact keeps_sequenceEntry hProduction
  · exact keeps_indentlessEntry hProduction
  · exact hEnter fun _ => keeps_mappingKey
  · exact keeps_mappingKey hProduction
  · exact keeps_mappingValue hProduction
  · exact hEnter fun _ hAfter =>
      keeps_flowSequenceEntry hAfter true
  · exact keeps_flowSequenceEntry hProduction false
  · exact keeps_flowPairKey hProduction
  · exact keeps_flowPairValue hProduction
  · exact keeps_flowPairEnd hProduction
  · exact hEnter fun _ hAfter =>
      keeps_flowMappingKey hAfter true
  · exact keeps_flowMappingKey hProduction false
  · exact keeps_flowMappingValue hProduction
  · exact keeps_flowMappingEmpty hProduction
  · exact keeps_pure hProduction (Mark.isWithin_start limit)

end Derive

/- Events and an error that are within so many lines. -/
structure EventStream.IsWithin
    (stream : EventStream)
    (limit : Nat) : Prop where
  events :
    ∀ event ∈ stream.events, event.mark.IsWithin limit
  error :
    ∀ error, stream.error = some error →
      error.mark.IsWithin limit

namespace EventStream

variable {limit : Nat}

/- Events are collected within the lines of their tokens. -/
theorem isWithin_collect
    {production : Production}
    {taken : List Event}
    (hProduction : production.IsWithin limit)
    (hTaken : ∀ event ∈ taken, event.mark.IsWithin limit)
    (fuel : Nat) :
    (collect fuel production taken).IsWithin limit := by
  induction fuel generalizing production taken with
  | zero =>
      refine ⟨?_, ?_⟩
      · intro event hEvent
        exact hTaken event (List.mem_reverse.mp hEvent)
      · intro error hNone
        cases hNone
  | succ fuel ih =>
      have hNext := Derive.keeps_event hProduction
      unfold Keeps Meets at hNext
      unfold collect
      rw [StateT.run]
      cases hRun : Derive.event production with
      | error error =>
          rw [hRun] at hNext
          refine ⟨?_, ?_⟩
          · intro event hEvent
            exact hTaken event (List.mem_reverse.mp hEvent)
          · intro other hOther
            cases hOther
            exact hNext
      | ok pair =>
          rw [hRun] at hNext
          have hMore :
              ∀ event ∈ pair.1 :: taken,
                event.mark.IsWithin limit :=
            List.forall_mem_cons.mpr ⟨hNext.2, hTaken⟩
          dsimp only
          split
          · refine ⟨?_, ?_⟩
            · intro event hEvent
              exact hMore event (List.mem_reverse.mp hEvent)
            · intro error hNone
              cases hNone
          · exact ih hNext.1 hMore

/- The events of a text are within its lines. -/
theorem isWithin_ofText
    (text : List Char) :
    (ofText text).IsWithin (linesFrom false text) := by
  have hTokens := TokenStream.isWithin_ofText text
  apply isWithin_collect ⟨hTokens.tokens, hTokens.error⟩
  intro event hNone
  cases hNone

end EventStream

end Yaml

end Transclusion
