import Transclusion.Proofs.Yaml.Tree

/-
  The events that tokens give, part by part.

  Key definitions include:
    * `Transclusion.Yaml.Derives`
    * `Transclusion.Yaml.Produces`

  Key theorems include:
    * `Transclusion.Yaml.Produces.trans`
    * `Transclusion.Yaml.events_ofTokens`

  The tokens of a node give the events of its pieces, and
  what is expected afterwards is what was expected after the
  node.  There is one rule for each kind of entry.
-/

------------------------------------------------------------
-- Derivations
------------------------------------------------------------

namespace Transclusion

namespace Yaml

/- One state of reading tokens leads to another by events. -/
inductive Derives :
    Production → List EventKind → Production → Prop where
  | refl
      (production : Production) :
      Derives production [] production
  | step
      {production next final : Production}
      {event : Event}
      {kinds : List EventKind}
      (hEvent :
        Derive.event production = .ok (event, next))
      (hMore : event.kind ≠ .streamEnd)
      (hNext : Derives next kinds final) :
      Derives production (event.kind :: kinds) final

/- One derivation behind another. -/
theorem Derives.trans
    {a b c : Production}
    {first second : List EventKind}
    (hFirst : Derives a first b)
    (hSecond : Derives b second c) :
    Derives a (first ++ second) c := by
  induction hFirst with
  | refl => exact hSecond
  | step hEvent hMore _ ih =>
      exact Derives.step hEvent hMore (ih hSecond)

/- The tokens that are left, and what is expected. -/
structure Production.At
    (production : Production)
    (kinds : List TokenKind)
    (now : Expectation)
    (later : List Expectation) : Prop where
  tokens : production.tokens.map Token.kind = kinds
  now : production.now = now
  later : production.later = later

/-
  A reading that begins with an event takes up tokens and
  gives the events of pieces.
-/
def Produces
    (reading : Derive Event)
    (kinds : List TokenKind)
    (later : List Expectation)
    (pieces : List Piece)
    (kindsAfter : List TokenKind)
    (nowAfter : Expectation)
    (laterAfter : List Expectation) : Prop :=
  ∀ production : Production,
    production.tokens.map Token.kind = kinds →
      production.later = later →
        ∃ first rest event next final,
          pieces = first :: rest ∧
            reading production = .ok (event, next) ∧
              event.kind = Piece.event first ∧
                Derives next (rest.map Piece.event) final ∧
                  final.At kindsAfter nowAfter laterAfter

/- The event of a piece does not end the stream. -/
theorem Piece.event_ne_streamEnd
    (piece : Piece) :
    piece.event ≠ .streamEnd := by
  cases piece <;> intro hEq <;> cases hEq

/- What the expectation of a state reads is derived. -/
theorem Produces.derives
    {reading : Derive Event}
    {kinds kindsAfter : List TokenKind}
    {now nowAfter : Expectation}
    {later laterAfter : List Expectation}
    {pieces : List Piece}
    (hReading :
      Produces reading kinds later pieces kindsAfter
        nowAfter laterAfter)
    (hNow :
      ∀ production : Production,
        production.now = now →
          Derive.event production = reading production)
    {production : Production}
    (hAt : production.At kinds now later) :
    ∃ final,
      Derives production (pieces.map Piece.event) final ∧
        final.At kindsAfter nowAfter laterAfter := by
  rcases hReading production hAt.tokens hAt.later with
    ⟨first, rest, event, next, final, rfl, hRead, hKind,
      hDerives, hFinal⟩
  refine ⟨final, ?_, hFinal⟩
  rw [List.map_cons, ← hKind]
  refine Derives.step ?_ ?_ hDerives
  · rw [hNow production hAt.now, hRead]
  · rw [hKind]
    exact Piece.event_ne_streamEnd first

end Yaml

end Transclusion

------------------------------------------------------------
-- Readings in Context
------------------------------------------------------------

namespace Transclusion

namespace Yaml

variable {kinds more kindsAfter : List TokenKind}
variable {now nowAfter next : Expectation}
variable {later laterAfter : List Expectation}
variable {pieces : List Piece}

/- One reading behind another. -/
theorem Produces.trans
    {first second : Derive Event}
    {kindsFinal : List TokenKind}
    {nowFinal : Expectation}
    {laterFinal : List Expectation}
    {morePieces : List Piece}
    (hFirst :
      Produces first kinds later pieces kindsAfter nowAfter
        laterAfter)
    (hNow :
      ∀ production : Production,
        production.now = nowAfter →
          Derive.event production = second production)
    (hSecond :
      Produces second kindsAfter laterAfter morePieces
        kindsFinal nowFinal laterFinal) :
    Produces first kinds later (pieces ++ morePieces)
      kindsFinal nowFinal laterFinal := by
  intro production hTokens hLater
  rcases hFirst production hTokens hLater with
    ⟨piece, rest, event, next, middle, rfl, hRead, hKind,
      hDerives, hMiddle⟩
  rcases hSecond.derives hNow hMiddle with
    ⟨final, hMore, hFinal⟩
  refine
    ⟨piece, rest ++ morePieces, event, next, final, rfl,
      hRead, hKind, ?_, hFinal⟩
  rw [List.map_append]
  exact hDerives.trans hMore

/-
  A reading that leaves a token behind, or prepares for what
  comes after the node, and then reads on.
-/
theorem Produces.after
    {reading inner : Derive Event}
    {laterInner : List Expectation}
    (hInner :
      Produces inner more laterInner pieces kindsAfter
        nowAfter laterAfter)
    (hReading :
      ∀ production : Production,
        production.tokens.map Token.kind = kinds →
          production.later = later →
            ∃ prepared : Production,
              prepared.tokens.map Token.kind = more ∧
                prepared.later = laterInner ∧
                  reading production = inner prepared) :
    Produces reading kinds later pieces kindsAfter nowAfter
      laterAfter := by
  intro production hTokens hLater
  rcases hReading production hTokens hLater with
    ⟨prepared, hPrepared, hPreparedLater, hSame⟩
  rw [hSame]
  exact hInner prepared hPrepared hPreparedLater

/- A reading that leaves the first token behind. -/
theorem Produces.behind
    {reading inner : Derive Event}
    {mark first : TokenKind}
    {laterInner : List Expectation}
    (hInner :
      Produces inner (first :: more) laterInner pieces
        kindsAfter nowAfter laterAfter)
    (hReading :
      ∀ rest error expected starts handles a b c d,
        reading
            ⟨⟨mark, a, b⟩ :: ⟨first, c, d⟩ :: rest,
              error, expected, later, starts, handles⟩ =
          inner
            ⟨⟨first, c, d⟩ :: rest, error, expected,
              laterInner, starts, handles⟩) :
    Produces reading (mark :: first :: more) later pieces
      kindsAfter nowAfter laterAfter := by
  apply hInner.after
  intro production hTokens hLater
  rcases production with
    ⟨tokens, error, expected, waiting, starts, handles⟩
  rcases List.map_eq_cons_iff.mp hTokens with
    ⟨⟨_, a, b⟩, behind, rfl, rfl, hBehind⟩
  rcases List.map_eq_cons_iff.mp hBehind with
    ⟨⟨_, c, d⟩, rest, rfl, rfl, hRest⟩
  cases hLater
  exact
    ⟨⟨⟨_, c, d⟩ :: rest, error, expected, laterInner,
      starts, handles⟩, hBehind, rfl,
      hReading rest error expected starts handles a b c d⟩

/- A reading of one token that gives an event and stops. -/
theorem produces_event
    {reading : Derive Event}
    {first : TokenKind}
    {piece : Piece}
    (hReading :
      ∀ rest error expected starts handles a b,
        rest.map Token.kind = kinds →
          ∃ mark final,
            reading
                ⟨⟨first, a, b⟩ :: rest, error, expected,
                  later, starts, handles⟩ =
              .ok (⟨piece.event, mark⟩, final) ∧
            final.At kindsAfter nowAfter laterAfter) :
    Produces reading (first :: kinds) later [piece]
      kindsAfter nowAfter laterAfter := by
  intro production hTokens hLater
  rcases production with
    ⟨tokens, error, expected, waiting, starts, handles⟩
  rcases List.map_eq_cons_iff.mp hTokens with
    ⟨⟨_, a, b⟩, rest, rfl, rfl, hRest⟩
  cases hLater
  rcases hReading rest error expected starts handles a b
      hRest with
    ⟨mark, final, hRead, hFinal⟩
  exact
    ⟨piece, [], ⟨piece.event, mark⟩, final, final, rfl,
      hRead, rfl, Derives.refl final, hFinal⟩

/-
  A collection begins.  Its first token is left for the
  entries.
-/
theorem produces_opening
    {reading : Derive Event}
    {first : TokenKind}
    {piece : Piece}
    (hReading :
      ∀ rest error expected starts handles a b,
        reading
            ⟨⟨first, a, b⟩ :: rest, error, expected, later,
              starts, handles⟩ =
          .ok
            (⟨piece.event, a⟩,
              ⟨⟨first, a, b⟩ :: rest, error, next, later,
                starts, handles⟩)) :
    Produces reading (first :: kinds) later [piece]
      (first :: kinds) next later := by
  apply produces_event
  intro rest error expected starts handles a b hRest
  refine ⟨a, _, hReading rest error expected starts handles
    a b, ?_, rfl, rfl⟩
  rw [List.map_cons, hRest]

/-
  A collection ends with its last token, and what is
  expected is what comes after it.
-/
theorem produces_closing
    {reading : Derive Event}
    {last : TokenKind}
    {piece : Piece}
    (hReading :
      ∀ rest error expected starts handles a b,
        reading
            ⟨⟨last, a, b⟩ :: rest, error, expected,
              now :: later, starts, handles⟩ =
          .ok
            (⟨piece.event, a⟩,
              ⟨rest, error, now, later, starts.tail,
                handles⟩)) :
    Produces reading (last :: kinds) (now :: later) [piece]
      kinds now later := by
  apply produces_event
  intro rest error expected starts handles a b hRest
  exact
    ⟨a, _, hReading rest error expected starts handles a b,
      hRest, rfl, rfl⟩

/- Whether a node begins with a token. -/
def TokenKind.beginsNode : TokenKind → Bool
  | .scalar _ _ => true
  | .flowSequenceStart => true
  | .flowMappingStart => true
  | .blockSequenceStart => true
  | .blockMappingStart => true
  | _ => false

/- A scalar is a node. -/
theorem produces_scalar
    (block indentless : Bool)
    (text : List Char)
    (style : ScalarStyle) :
    Produces (Derive.node block indentless)
      (.scalar text style :: kinds) (now :: later)
      [.scalar text style] kinds now later := by
  apply produces_event
  intro rest error expected starts handles a b hRest
  exact ⟨a, _, rfl, hRest, rfl, rfl⟩

end Yaml

end Transclusion

------------------------------------------------------------
-- Flow Collections
------------------------------------------------------------

namespace Transclusion

namespace Yaml

variable {kinds more kindsAfter : List TokenKind}
variable {now nowAfter : Expectation}
variable {later laterAfter : List Expectation}
variable {pieces : List Piece}
variable {first : TokenKind}

/- A flow sequence begins. -/
theorem produces_flowSequenceStart
    (block indentless : Bool) :
    Produces (Derive.node block indentless)
      (.flowSequenceStart :: kinds) later
      [.sequenceStart] (.flowSequenceStart :: kinds)
      .flowSequenceFirst later := by
  apply produces_opening
  intros
  rfl

/- A flow sequence ends, also right where it begins. -/
theorem produces_flowSequenceEnd
    (isFirst : Bool) :
    Produces (Derive.flowSequenceEntry isFirst)
      (.flowSequenceEnd :: kinds) (now :: later)
      [.sequenceEnd] kinds now later := by
  apply produces_closing
  intros
  rfl

/- The first entry of a flow sequence is a node. -/
theorem Produces.flowSequenceFirst
    (hFirst : first.beginsNode = true)
    (hNode :
      Produces (Derive.node false false) (first :: more)
        (.flowSequenceEntry :: later) pieces kindsAfter
        nowAfter laterAfter) :
    Produces (Derive.flowSequenceEntry true)
      (first :: more) later pieces kindsAfter nowAfter
      laterAfter := by
  apply hNode.after
  intro production hTokens hLater
  rcases production with
    ⟨tokens, error, expected, waiting, starts, handles⟩
  rcases List.map_eq_cons_iff.mp hTokens with
    ⟨⟨kind, start, stop⟩, rest, rfl, rfl, hRest⟩
  cases hLater
  refine
    ⟨⟨⟨kind, start, stop⟩ :: rest, error, expected,
      .flowSequenceEntry :: waiting, starts, handles⟩,
      hTokens, rfl, ?_⟩
  cases kind <;> first | rfl | cases hFirst

/- Another entry of a flow sequence begins with a comma. -/
theorem Produces.flowSequenceNext
    (hEntry :
      Produces (Derive.flowSequenceEntry true)
        (first :: more) later pieces kindsAfter nowAfter
        laterAfter) :
    Produces (Derive.flowSequenceEntry false)
      (.flowEntry :: first :: more) later pieces kindsAfter
      nowAfter laterAfter := by
  apply hEntry.behind
  intros
  cases first <;> rfl

/- A collection is entered behind the token that opens it. -/
theorem Produces.enter
    {reading : Derive Event}
    (hReading :
      Produces reading more later pieces kindsAfter nowAfter
        laterAfter) :
    Produces (Derive.enter >>= fun _ => reading)
      (first :: more) later pieces kindsAfter nowAfter
      laterAfter := by
  apply hReading.after
  intro production hTokens hLater
  rcases production with
    ⟨tokens, error, expected, waiting, starts, handles⟩
  rcases List.map_eq_cons_iff.mp hTokens with
    ⟨⟨kind, start, stop⟩, rest, rfl, rfl, hRest⟩
  exact
    ⟨⟨rest, error, expected, waiting, start :: starts,
      handles⟩, hRest, hLater, rfl⟩

/- A flow mapping begins. -/
theorem produces_flowMappingStart
    (block indentless : Bool) :
    Produces (Derive.node block indentless)
      (.flowMappingStart :: kinds) later
      [.mappingStart] (.flowMappingStart :: kinds)
      .flowMappingFirst later := by
  apply produces_opening
  intros
  rfl

/- A flow mapping ends, also right where it begins. -/
theorem produces_flowMappingEnd
    (isFirst : Bool) :
    Produces (Derive.flowMappingKey isFirst)
      (.flowMappingEnd :: kinds) (now :: later)
      [.mappingEnd] kinds now later := by
  apply produces_closing
  intros
  rfl

/- The first key of a flow mapping is a node. -/
theorem Produces.flowMappingFirst
    (hFirst : first.beginsNode = true)
    (hNode :
      Produces (Derive.node false false) (first :: more)
        (.flowMappingValue :: later) pieces kindsAfter
        nowAfter laterAfter) :
    Produces (Derive.flowMappingKey true)
      (.key :: first :: more) later pieces kindsAfter
      nowAfter laterAfter := by
  apply hNode.behind
  intros
  cases first <;> first | rfl | cases hFirst

/- Another key of a flow mapping begins with a comma. -/
theorem Produces.flowMappingNext
    (hKey :
      Produces (Derive.flowMappingKey true) (.key :: more)
        later pieces kindsAfter nowAfter laterAfter) :
    Produces (Derive.flowMappingKey false)
      (.flowEntry :: .key :: more) later pieces kindsAfter
      nowAfter laterAfter := by
  apply hKey.behind
  intros
  rfl

/- A value of a flow mapping is a node. -/
theorem Produces.flowMappingValue
    (hFirst : first.beginsNode = true)
    (hNode :
      Produces (Derive.node false false) (first :: more)
        (.flowMappingKey :: later) pieces kindsAfter
        nowAfter laterAfter) :
    Produces Derive.flowMappingValue (.value :: first :: more)
      later pieces kindsAfter nowAfter laterAfter := by
  apply hNode.behind
  intros
  cases first <;> first | rfl | cases hFirst

end Yaml

end Transclusion

------------------------------------------------------------
-- Block Collections
------------------------------------------------------------

namespace Transclusion

namespace Yaml

variable {kinds more kindsAfter : List TokenKind}
variable {now nowAfter : Expectation}
variable {later laterAfter : List Expectation}
variable {pieces : List Piece}
variable {first : TokenKind}

/- A block sequence begins. -/
theorem produces_blockSequenceStart
    (indentless : Bool) :
    Produces (Derive.node true indentless)
      (.blockSequenceStart :: kinds) later
      [.sequenceStart] (.blockSequenceStart :: kinds)
      .sequenceFirst later := by
  apply produces_opening
  intros
  rfl

/- A sequence begins at the indentation of its key. -/
theorem produces_indentlessStart :
    Produces (Derive.node true true)
      (.blockEntry :: kinds) later
      [.sequenceStart] (.blockEntry :: kinds)
      .indentlessEntry later := by
  apply produces_opening
  intros
  rfl

/- A block mapping begins. -/
theorem produces_blockMappingStart
    (indentless : Bool) :
    Produces (Derive.node true indentless)
      (.blockMappingStart :: kinds) later
      [.mappingStart] (.blockMappingStart :: kinds)
      .mappingFirst later := by
  apply produces_opening
  intros
  rfl

/- A block sequence ends. -/
theorem produces_blockSequenceEnd :
    Produces Derive.sequenceEntry
      (.blockEnd :: kinds) (now :: later)
      [.sequenceEnd] kinds now later := by
  apply produces_closing
  intros
  rfl

/- A block mapping ends. -/
theorem produces_blockMappingEnd :
    Produces Derive.mappingKey
      (.blockEnd :: kinds) (now :: later)
      [.mappingEnd] kinds now later := by
  apply produces_closing
  intros
  rfl

/- A sequence without indentation ends at another token. -/
theorem produces_indentlessEnd
    (hFirst : first ≠ .blockEntry) :
    Produces Derive.indentlessEntry (first :: more)
      (now :: later) [.sequenceEnd] (first :: more) now
      later := by
  apply produces_event
  intro rest error expected starts handles a b hRest
  refine
    ⟨a,
      ⟨⟨first, a, b⟩ :: rest, error, now, later, starts,
        handles⟩, ?_, ?_, rfl, rfl⟩
  · cases first <;> first | rfl | exact absurd rfl hFirst
  · rw [List.map_cons, hRest]

/- An entry of a block sequence is a node. -/
theorem Produces.sequenceEntry
    (hFirst : first.beginsNode = true)
    (hNode :
      Produces (Derive.node true false) (first :: more)
        (.sequenceEntry :: later) pieces kindsAfter
        nowAfter laterAfter) :
    Produces Derive.sequenceEntry (.blockEntry :: first :: more)
      later pieces kindsAfter nowAfter laterAfter := by
  apply hNode.behind
  intros
  cases first <;> first | rfl | cases hFirst

/- An entry of such a sequence is a node. -/
theorem Produces.indentlessEntry
    (hFirst : first.beginsNode = true)
    (hNode :
      Produces (Derive.node true false) (first :: more)
        (.indentlessEntry :: later) pieces kindsAfter
        nowAfter laterAfter) :
    Produces Derive.indentlessEntry
      (.blockEntry :: first :: more) later pieces kindsAfter
      nowAfter laterAfter := by
  apply hNode.behind
  intros
  cases first <;> first | rfl | cases hFirst

/- A key of a block mapping is a node. -/
theorem Produces.mappingKey
    (hFirst : first.beginsNode = true)
    (hNode :
      Produces (Derive.node true true) (first :: more)
        (.mappingValue :: later) pieces kindsAfter
        nowAfter laterAfter) :
    Produces Derive.mappingKey (.key :: first :: more)
      later pieces kindsAfter nowAfter laterAfter := by
  apply hNode.behind
  intros
  cases first <;> first | rfl | cases hFirst

/- A value of a block mapping is a node. -/
theorem Produces.mappingValue
    (hFirst : first.beginsNode = true ∨ first = .blockEntry)
    (hNode :
      Produces (Derive.node true true) (first :: more)
        (.mappingKey :: later) pieces kindsAfter
        nowAfter laterAfter) :
    Produces Derive.mappingValue (.value :: first :: more)
      later pieces kindsAfter nowAfter laterAfter := by
  apply hNode.behind
  intros
  rcases hFirst with hFirst | rfl
  · cases first <;> first | rfl | cases hFirst
  · rfl

end Yaml

end Transclusion

------------------------------------------------------------
-- Documents
------------------------------------------------------------

namespace Transclusion

namespace Yaml

/- One more event is collected. -/
theorem collect_event
    {production next : Production}
    {event : Event}
    (hEvent : Derive.event production = .ok (event, next))
    (hMore : event.kind ≠ .streamEnd)
    (fuel : Nat)
    (taken : List Event) :
    EventStream.collect (fuel + 1) production taken =
      EventStream.collect fuel next (event :: taken) := by
  have hRun : Derive.event.run production = .ok (event, next) :=
    hEvent
  rw [EventStream.collect, hRun]
  simp only [if_neg hMore]

/- The event that ends a stream is the last one. -/
theorem collect_streamEnd
    {production next : Production}
    {event : Event}
    (hEvent : Derive.event production = .ok (event, next))
    (hLast : event.kind = .streamEnd)
    (fuel : Nat)
    (taken : List Event) :
    EventStream.collect (fuel + 1) production taken =
      { events := (event :: taken).reverse } := by
  have hRun : Derive.event.run production = .ok (event, next) :=
    hEvent
  rw [EventStream.collect, hRun]
  simp only [if_pos hLast]

/- The events of a derivation are collected. -/
theorem Derives.exists_collect
    {production final : Production}
    {kinds : List EventKind}
    (hDerives : Derives production kinds final) :
    ∃ events : List Event,
      events.map Event.kind = kinds ∧
        ∀ fuel taken,
          EventStream.collect (fuel + kinds.length) production
              taken =
            EventStream.collect fuel final
              (events.reverse ++ taken) := by
  induction hDerives with
  | refl => exact ⟨[], rfl, fun fuel taken => by simp⟩
  | step hEvent hMore _ ih =>
      rename_i production next final event kinds hNext
      rcases ih with ⟨events, hKinds, hCollect⟩
      refine ⟨event :: events, by simp [hKinds], ?_⟩
      intro fuel taken
      rw [List.length_cons, ← Nat.add_assoc,
        collect_event hEvent hMore, hCollect,
        List.reverse_cons, List.append_assoc]
      rfl

/- A stream whose tokens begin a node opens a document. -/
theorem exists_opened
    {tokens : List Token}
    {first : TokenKind}
    {more : List TokenKind}
    (error : Option SyntaxError)
    (hTokens :
      tokens.map Token.kind = .streamStart :: first :: more)
    (hFirst : first.beginsNode = true) :
    ∃ opened : Production,
      Derives { tokens := tokens, error := error }
          [.streamStart, .documentStart] opened ∧
        opened.At (first :: more) .blockNode
          [.documentEnd] := by
  rcases List.map_eq_cons_iff.mp hTokens with
    ⟨⟨_, a, b⟩, rest, rfl, rfl, hRest⟩
  rcases List.map_eq_cons_iff.mp hRest with
    ⟨⟨kind, c, d⟩, behind, rfl, rfl, hBehind⟩
  let opened : Production :=
    { tokens := ⟨kind, c, d⟩ :: behind, error := error
      now := .blockNode, later := [.documentEnd]
      handles := Derive.standardHandles }
  have hOpening :
      Derive.event
          { tokens := ⟨kind, c, d⟩ :: behind, error := error
            now := .implicitDocument } =
        .ok (⟨.documentStart, c⟩, opened) := by
    cases kind <;> first | rfl | cases hFirst
  have hStart :
      Derive.event
          { tokens :=
              ⟨.streamStart, a, b⟩ :: ⟨kind, c, d⟩ :: behind
            error := error } =
        .ok (⟨.streamStart, a⟩,
          { tokens := ⟨kind, c, d⟩ :: behind, error := error
            now := .implicitDocument }) := by
    rfl
  refine ⟨opened, ?_, hRest, rfl, rfl⟩
  apply Derives.step hStart EventKind.noConfusion
  exact
    Derives.step hOpening EventKind.noConfusion
      (Derives.refl opened)

/- Behind the node of a document, the stream ends with it. -/
theorem exists_collect_closing
    {closed : Production}
    (hClosed : closed.At [.streamEnd] .documentEnd [])
    (fuel : Nat)
    (taken : List Event) :
    ∃ events : List Event,
      events.map Event.kind = [.documentEnd, .streamEnd] ∧
        EventStream.collect (fuel + 1 + 1) closed taken =
          { events := taken.reverse ++ events } := by
  rcases closed with
    ⟨tokens, error, expected, waiting, starts, handles⟩
  rcases List.map_eq_singleton_iff.mp hClosed.tokens with
    ⟨⟨_, a, b⟩, rfl, rfl⟩
  cases hClosed.now
  cases hClosed.later
  have hClosing :
      Derive.event
          ⟨[⟨.streamEnd, a, b⟩], error, .documentEnd, [],
            starts, handles⟩ =
        .ok (⟨.documentEnd, a⟩,
          ⟨[⟨.streamEnd, a, b⟩], error, .documentStart, [],
            starts, []⟩) := by
    rfl
  have hEnd :
      Derive.event
          ⟨[⟨.streamEnd, a, b⟩], error, .documentStart, [],
            starts, []⟩ =
        .ok (⟨.streamEnd, a⟩,
          ⟨[], error, .nothing, [], starts, []⟩) := by
    rfl
  refine
    ⟨[⟨.documentEnd, a⟩, ⟨.streamEnd, a⟩], rfl, ?_⟩
  rw [collect_event hClosing EventKind.noConfusion,
    collect_streamEnd hEnd rfl]
  simp

/-
  Tokens that are a node, at the start of a stream and up to
  its end, give the events of a document.
-/
theorem events_ofTokens
    {stream : TokenStream}
    {first : TokenKind}
    {more : List TokenKind}
    {pieces : List Piece}
    (hTokens :
      stream.tokens.map Token.kind =
        .streamStart :: first :: more)
    (hFirst : first.beginsNode = true)
    (hNode :
      Produces (Derive.node true false) (first :: more)
        [.documentEnd] pieces [.streamEnd] .documentEnd [])
    (hFuel : pieces.length ≤ 4 * stream.tokens.length) :
    (EventStream.ofTokens stream).events.map Event.kind =
      documentEvents pieces := by
  rcases exists_opened stream.error hTokens hFirst with
    ⟨opened, hOpening, hOpened⟩
  rcases hNode.derives (by rintro ⟨⟩ rfl; rfl) hOpened with
    ⟨closed, hDerives, hClosed⟩
  rcases (hOpening.trans hDerives).exists_collect with
    ⟨events, hEvents, hCollect⟩
  -- Besides the pieces there are two events at either end.
  have hSteps :
      4 * stream.tokens.length + 8 =
        4 * stream.tokens.length - pieces.length + 4 + 1 + 1 +
          ([EventKind.streamStart, .documentStart] ++
            pieces.map Piece.event).length := by
    simp only [List.length_append, List.length_map,
      List.length_cons, List.length_nil]
    omega
  rcases exists_collect_closing hClosed
      (4 * stream.tokens.length - pieces.length + 4)
      (events.reverse ++ []) with
    ⟨ending, hEnding, hClosing⟩
  unfold EventStream.ofTokens
  rw [hSteps, hCollect, hClosing]
  simp [documentEvents, hEvents, hEnding]

end Yaml

end Transclusion
