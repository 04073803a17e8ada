import Mathlib.Data.List.DropRight
import Transclusion.Proofs.Yaml.Lexing
import Transclusion.Proofs.Yaml.Plain
import Transclusion.Proofs.Yaml.Quoted

/-
  Tokens between brackets and braces.

  Key definitions include:
    * `Transclusion.Yaml.FlowAt`
    * `Transclusion.Yaml.Brackets`
    * `Transclusion.Yaml.FlowReads`

  Key theorems include:
    * `Transclusion.Yaml.FlowAt.step`

  Between brackets and braces the indentation means nothing,
  and no key has to turn out one.  A text therefore counts up
  to the gap in front of it.
-/

------------------------------------------------------------
-- Lexers in Flow Collections
------------------------------------------------------------

namespace Transclusion

namespace Yaml

/- A text without the gap in front of it. -/
def trimGap
    (text : List Char) : List Char :=
  text.dropWhile isSpacing

/-
  A lexer in so many flow collections, outside of all block
  collections, with tokens read and a text left.  `allowed`
  says that a key may begin.
-/
structure FlowAt
    (size : Nat)
    (rest : List Char)
    (kinds : List TokenKind)
    (depth : Nat)
    (allowed : Bool)
    (lexer : Lexer) : Prop where
  cursor :
    ∃ left mark,
      lexer.cursor = Cursor.on left size mark ∧
        left.length ≤ size ∧ trimGap left = trimGap rest
  tokens : lexer.tokens.reverse.map Token.kind = kinds
  count : lexer.count = lexer.tokens.length
  keys : lexer.keys.length = depth + 1
  idle :
    ∀ key, some key ∈ lexer.keys → key.required = false
  indent : lexer.indent = -1
  indents : lexer.indents = []
  allowed : allowed = true → lexer.keyAllowed = true

/-
  Whether a text begins with a token that is no directive
  and neither starts nor ends a document.
-/
structure BeginsToken
    (text : List Char) : Prop where
  starts : StartsToken text
  percent : ∀ c ∈ text.head?, c ≠ '%'
  ruled : ¬ IsRuled text

/- Most characters begin a token of their own. -/
theorem beginsToken_cons
    {c : Char}
    (hGap : isGap (some c) = false)
    (hComment : c ≠ '#')
    (hOrder : c.toNat ≠ 0xFEFF)
    (hPercent : c ≠ '%')
    {rest : List Char}
    (hRuled : ¬ IsRuled (c :: rest)) :
    BeginsToken (c :: rest) := by
  constructor
  · intro d hMem
    cases hMem
    exact ⟨hGap, hComment, hOrder⟩
  · intro d hMem
    cases hMem
    exact hPercent
  · exact hRuled

/- Only dashes and points are ruled. -/
theorem not_isRuled_cons
    {c : Char}
    (hDash : c ≠ '-')
    (hPoint : c ≠ '.')
    (rest : List Char) :
    ¬ IsRuled (c :: rest) := by
  rintro (hEq | hEq)
  · exact hDash (List.cons.inj hEq).1
  · exact hPoint (List.cons.inj hEq).1

/- Brackets, commas, colons, quotes and bars are tokens. -/
theorem beginsToken_indicator
    {c : Char}
    (hOne : c ∈ "[]\x7b\x7d,:?'\"|".toList)
    (rest : List Char) :
    BeginsToken (c :: rest) := by
  have hSafe :
      ∀ d ∈ "[]\x7b\x7d,:?'\"|".toList,
        isGap (some d) = false ∧ d ≠ '#' ∧
          d.toNat ≠ 0xFEFF ∧ d ≠ '%' ∧ d ≠ '-' ∧ d ≠ '.' := by
    exact List.forall_iff_forall_mem.mp (by decide)
  rcases hSafe c hOne with
    ⟨hGap, hComment, hOrder, hPercent, hDash, hPoint⟩
  exact
    beginsToken_cons hGap hComment hOrder hPercent
      (not_isRuled_cons hDash hPoint rest)

/- A token has no gap in front of it. -/
theorem BeginsToken.trimGap
    {text : List Char}
    (hStart : BeginsToken text) :
    trimGap text = text := by
  cases text with
  | nil => rfl
  | cons c more =>
      have hGap := (hStart.starts c rfl).1
      have hSpacing : isSpacing c = false := by
        rw [Bool.eq_false_iff]
        intro hSpacing
        rw [isGap_of_isSpacing hSpacing] at hGap
        cases hGap
      exact List.dropWhile_cons_of_neg (by simp [hSpacing])

namespace FlowAt

variable {size depth depthAfter : Nat}
variable {rest restAfter more : List Char}
variable {kinds kindsAfter : List TokenKind}
variable {allowed allowedAfter : Bool}
variable {lexer : Lexer}
variable {c : Char}

/- A gap in front of what is left does not matter. -/
theorem of_trimGap_eq
    (hAt : FlowAt size rest kinds depth allowed lexer)
    (hTrim : trimGap rest = trimGap restAfter) :
    FlowAt size restAfter kinds depth allowed lexer := by
  rcases hAt.cursor with ⟨left, mark, hCursor, hSize, hLeft⟩
  exact
    { hAt with
      cursor := ⟨left, mark, hCursor, hSize, hLeft.trans hTrim⟩ }

/- Keys that reach too far are given up. -/
theorem fresh
    (hAt : FlowAt size rest kinds depth allowed lexer)
    (mark : Mark) :
    FlowAt size rest kinds depth allowed
      { lexer with keys := Lexer.freshKeys mark lexer.keys } := by
  refine { hAt with keys := ?_, idle := ?_ }
  · unfold Lexer.freshKeys
    rw [List.length_map]
    exact hAt.keys
  · intro key hMem
    rcases List.mem_map.mp hMem with ⟨old, hOld, hEq⟩
    rw [Option.filter_eq_some_iff] at hEq
    exact hAt.idle key (hEq.1 ▸ hOld)

/- Giving up the keys that reach too far succeeds. -/
theorem dropStale
    (hAt : FlowAt size rest kinds depth allowed lexer) :
    Lex.dropStale lexer =
      .ok ((),
        { lexer with
          keys :=
            Lexer.freshKeys lexer.cursor.mark lexer.keys }) := by
  apply Lex.dropStale_keys
  intro key hMem hRequired
  rw [hAt.idle key hMem] at hRequired
  cases hRequired

/- The innermost key need not turn out one. -/
theorem exists_keys
    (hAt : FlowAt size rest kinds depth allowed lexer) :
    ∃ key more,
      lexer.keys = key :: more ∧
        (∀ pending ∈ key, pending.required = false) ∧
          more.length = depth ∧
            ∀ other, some other ∈ more →
              other.required = false := by
  have hKeys := hAt.keys
  have hIdle := hAt.idle
  cases hCons : lexer.keys with
  | nil =>
      rw [hCons] at hKeys
      cases hKeys
  | cons key more =>
      rw [hCons] at hKeys hIdle
      refine ⟨key, more, rfl, ?_, Nat.succ.inj hKeys, ?_⟩
      · intro pending hMem
        exact hIdle pending (hMem ▸ List.mem_cons_self)
      · intro other hMem
        exact hIdle other (List.mem_cons_of_mem _ hMem)

/- Keys that need not turn out ones can be exchanged. -/
theorem withKeys
    (hAt : FlowAt size rest kinds depth allowed lexer)
    {keys : List (Option PendingKey)}
    (hLength : keys.length = depthAfter + 1)
    (hIdle :
      ∀ key, some key ∈ keys → key.required = false) :
    FlowAt size rest kinds depthAfter allowed
      { lexer with keys := keys } :=
  { cursor := hAt.cursor
    tokens := hAt.tokens
    count := hAt.count
    keys := hLength
    idle := hIdle
    indent := hAt.indent
    indents := hAt.indents
    allowed := hAt.allowed }

/- A key is allowed or not. -/
theorem withAllowed
    (hAt : FlowAt size rest kinds depth allowed lexer)
    (allowedAfter : Bool) :
    FlowAt size rest kinds depth allowedAfter
      { lexer with keyAllowed := allowedAfter } :=
  { hAt with allowed := id }

/- That a key may begin need not be known. -/
theorem forget
    (hAt : FlowAt size rest kinds depth allowed lexer) :
    FlowAt size rest kinds depth false lexer :=
  { hAt with allowed := Bool.noConfusion }

/- A token is added, and its text left behind. -/
theorem withToken
    (hAt : FlowAt size rest kinds depth allowed lexer)
    (hSize : more.length ≤ size)
    (token : Token)
    (mark : Mark) :
    FlowAt size more (kinds ++ [token.kind]) depth allowed
      { lexer with
        cursor := Cursor.on more size mark
        tokens := token :: lexer.tokens
        count := lexer.count + 1 } := by
  refine
    { hAt with
      cursor := ⟨more, mark, rfl, hSize, rfl⟩
      tokens := ?_
      count := ?_ }
  · rw [← hAt.tokens, List.reverse_cons, List.map_append]
    rfl
  · rw [hAt.count]
    rfl

/- What may begin a key here is remembered. -/
theorem saveKey
    (hAt : FlowAt size rest kinds depth allowed lexer) :
    Lex.saveKey lexer =
        .ok ((), { lexer with keys := lexer.savedKeys }) ∧
      FlowAt size rest kinds depth allowed
        { lexer with keys := lexer.savedKeys } := by
  rcases hAt.exists_keys with
    ⟨key, more, hKeys, hNone, hLength, hMore⟩
  refine ⟨Lex.saveKey_keys hKeys hNone, hAt.withKeys ?_ ?_⟩
  · unfold Lexer.savedKeys
    split
    · rw [hKeys, List.tail_cons, List.length_cons, hLength]
    · exact hAt.keys
  · unfold Lexer.savedKeys
    split
    · rw [hKeys]
      intro other hMem
      rcases List.mem_cons.mp hMem with hEq | hMem
      · cases hEq
        rw [Bool.and_eq_false_iff, hAt.indent,
          beq_eq_false_iff_ne]
        right
        omega
      · exact hMore other hMem
    · exact hAt.idle

/- The innermost key is given up. -/
theorem dropKey
    (hAt : FlowAt size rest kinds depth allowed lexer) :
    Lex.dropKey lexer =
        .ok ((),
          { lexer with keys := none :: lexer.keys.tail }) ∧
      FlowAt size rest kinds depth allowed
        { lexer with keys := none :: lexer.keys.tail } := by
  rcases hAt.exists_keys with
    ⟨key, more, hKeys, hNone, hLength, hMore⟩
  rw [Lex.dropKey_keys hKeys hNone, hKeys]
  refine ⟨rfl, hAt.withKeys ?_ ?_⟩
  · rw [List.tail_cons, List.length_cons, hLength]
  · intro other hMem
    rcases List.mem_cons.mp hMem with hEq | hMem
    · cases hEq
    · exact hMore other hMem

/- Whether the lexer is in a flow collection. -/
theorem inFlow
    (hAt : FlowAt size rest kinds depth allowed lexer) :
    lexer.inFlow = decide (depth ≠ 0) := by
  rcases hAt.exists_keys with
    ⟨key, more, hKeys, _, hLength, _⟩
  unfold Lexer.inFlow
  rw [hKeys]
  cases more with
  | nil =>
      cases hLength
      rfl
  | cons other more =>
      cases hLength
      rfl

/- No collection is closed by the indentation. -/
theorem unindentTo
    (hAt : FlowAt size rest kinds depth allowed lexer)
    (column : Int) :
    Lex.unindentTo column lexer = .ok ((), lexer) := by
  rw [Lex.unindentTo, bind_ok get_ok, hAt.indents]
  split <;> rfl

/- The gap in front of a token. -/
theorem exists_gap
    (hAt : FlowAt size rest kinds depth allowed lexer)
    (hTrim : trimGap rest = rest) :
    ∃ gap mark,
      lexer.cursor = Cursor.on (gap ++ rest) size mark ∧
        (gap ++ rest).length ≤ size ∧
          ∀ c ∈ gap, isSpacing c = true := by
  rcases hAt.cursor with ⟨left, mark, hCursor, hSize, hLeft⟩
  have hSplit : left.takeWhile isSpacing ++ rest = left := by
    rw [← hTrim, ← hLeft]
    exact List.takeWhile_append_dropWhile
  refine ⟨left.takeWhile isSpacing, mark, ?_, ?_, ?_⟩
  · rw [hSplit]
    exact hCursor
  · rw [hSplit]
    exact hSize
  · intro c hMem
    exact List.mem_takeWhile_imp hMem

/- In front of a token, behind the gap. -/
theorem atToken
    (hAt : FlowAt size rest kinds depth allowed lexer)
    (gap : List Char)
    (hSize : lexer.cursor.size = size)
    (hRest : rest.length ≤ size) :
    FlowAt size rest kinds depth allowed
      (lexer.atToken rest gap) := by
  have hFresh := hAt.fresh (lexer.cursor.mark.after gap)
  refine
    { hFresh with cursor := ?_, allowed := fun hAllowed => ?_ }
  · exact ⟨rest, _, by rw [← hSize]; rfl, hRest, rfl⟩
  · unfold Lexer.atToken
    simp only
    rw [hAt.allowed hAllowed, Bool.true_or]

/-
  A token that begins with a character is fetched when the
  rule for the character reads it behind the gap.
-/
theorem fetches
    (hAt : FlowAt size (c :: more) kinds depth allowed lexer)
    {gap : List Char}
    {mark : Mark}
    (hCursor :
      lexer.cursor = Cursor.on (gap ++ c :: more) size mark)
    (hSize : (gap ++ c :: more).length ≤ size)
    (hGap : ∀ c ∈ gap, isSpacing c = true)
    (hStart : BeginsToken (c :: more))
    {ready done : Lexer}
    (hReady : lexer.atToken (c :: more) gap = ready)
    (hDispatch : Lex.dispatch c ready = .ok ((), done))
    (hDone :
      FlowAt size restAfter kindsAfter depthAfter allowedAfter
        done)
    (hLast : kindsAfter.getLast? ≠ some .streamEnd)
    (hLess : done.cursor.rest.length ≤ more.length) :
    ∃ next,
      Fetches lexer next ∧
        FlowAt size restAfter kindsAfter depthAfter
          allowedAfter next ∧
          next.cursor = done.cursor ∧
            next.count = done.count ∧
              next.keys =
                Lexer.freshKeys done.cursor.mark done.keys := by
  rw [List.length_append] at hSize
  have hAtToken :
      FlowAt size (c :: more) kinds depth allowed ready := by
    rw [← hReady]
    exact hAt.atToken gap (by rw [hCursor]; rfl) (by omega)
  have hAfter :
      ready.cursor =
        Cursor.on (c :: more) size (mark.after gap) := by
    rw [← hReady]
    unfold Lexer.atToken
    rw [hCursor]
    rfl
  have hUnindent := hAtToken.unindentTo (mark.after gap).column
  rw [← hReady] at hUnindent
  have hFetch :
      Lex.fetch lexer =
        .ok ((),
          { done with
            keys :=
              Lexer.freshKeys done.cursor.mark
                done.keys }) := by
    rw [Lex.fetch_token hCursor (by omega) hGap hStart.starts
      (Or.inr (hStart.percent c rfl)) (Or.inr hStart.ruled) _
      hUnindent (hReady ▸ hAfter), hReady, bind_ok hDispatch,
      hDone.dropStale]
    intro key hMem hRequired
    rw [hAt.idle key hMem] at hRequired
    cases hRequired
  refine
    ⟨_, .single hFetch ?_ ?_, hDone.fresh _, rfl, rfl, rfl⟩
  · intro token hMem hEnd
    apply hLast
    rw [← hDone.tokens, List.map_reverse,
      List.getLast?_reverse, List.head?_map, hMem,
      Option.map_some, hEnd]
  · rw [hCursor]
    simp only [Cursor.on, List.length_append,
      List.length_cons]
    omega

/- The same, wherever the gap ends. -/
theorem step
    (hAt : FlowAt size (c :: more) kinds depth allowed lexer)
    (hStart : BeginsToken (c :: more))
    (hLast : kindsAfter.getLast? ≠ some .streamEnd)
    (hDispatch :
      ∀ ready mark,
        ready.cursor = Cursor.on (c :: more) size mark →
          FlowAt size (c :: more) kinds depth allowed ready →
            ∃ done,
              Lex.dispatch c ready = .ok ((), done) ∧
                FlowAt size restAfter kindsAfter depthAfter
                  allowedAfter done ∧
                  done.cursor.rest.length ≤ more.length) :
    ∃ next,
      Fetches lexer next ∧
        FlowAt size restAfter kindsAfter depthAfter
          allowedAfter next := by
  rcases hAt.exists_gap hStart.trimGap with
    ⟨gap, mark, hCursor, hSize, hGap⟩
  have hRest : (c :: more).length ≤ size := by
    rw [List.length_append] at hSize
    omega
  rcases hDispatch (lexer.atToken (c :: more) gap)
      (mark.after gap)
      (by unfold Lexer.atToken; rw [hCursor]; rfl)
      (hAt.atToken gap (by rw [hCursor]; rfl) hRest) with
    ⟨done, hRun, hDone, hLess⟩
  rcases hAt.fetches hCursor hSize hGap hStart rfl hRun hDone
      hLast hLess with
    ⟨next, hFetches, hNext, _⟩
  exact ⟨next, hFetches, hNext⟩

end FlowAt

end Yaml

end Transclusion

------------------------------------------------------------
-- Rules
------------------------------------------------------------

namespace Transclusion

namespace Yaml

namespace FlowAt

variable {size depth : Nat}
variable {rest more : List Char}
variable {kinds : List TokenKind}
variable {allowed : Bool}
variable {ready : Lexer}
variable {mark : Mark}
variable {c : Char}

/- No more is left than the whole text. -/
theorem length_le
    (hAt : FlowAt size rest kinds depth allowed ready)
    (hCursor : ready.cursor = Cursor.on more size mark) :
    more.length ≤ size := by
  rcases hAt.cursor with ⟨left, _, hLeft, hSize, _⟩
  rw [hCursor] at hLeft
  have hEq : more = left := congrArg Cursor.rest hLeft
  rw [hEq]
  exact hSize

/- A token of one character is added. -/
theorem addSkipping
    (hAt : FlowAt size (c :: more) kinds depth allowed ready)
    (hCursor : ready.cursor = Cursor.on (c :: more) size mark)
    (hLine : isBreak c = false)
    (kind : TokenKind) :
    ∃ done,
      Lex.addSkipping kind 1 ready = .ok ((), done) ∧
        FlowAt size more (kinds ++ [kind]) depth allowed
          done ∧
          done.cursor.rest.length ≤ more.length := by
  have hSize := hAt.length_le hCursor
  rw [List.length_cons] at hSize
  exact
    ⟨_, Lex.addSkipping_one hCursor hLine kind,
      hAt.withToken (by omega) ⟨kind, mark, _⟩ _,
      Nat.le_refl _⟩

/- A collection begins. -/
theorem flowStart
    (hAt : FlowAt size (c :: more) kinds depth allowed ready)
    (hCursor : ready.cursor = Cursor.on (c :: more) size mark)
    (hLine : isBreak c = false)
    (kind : TokenKind) :
    ∃ done,
      Lex.flowStart kind ready = .ok ((), done) ∧
        FlowAt size more (kinds ++ [kind]) (depth + 1) true
          done ∧
          done.cursor.rest.length ≤ more.length := by
  rcases hAt.saveKey with ⟨hSave, hSaved⟩
  have hPushed :
      FlowAt size (c :: more) kinds (depth + 1) allowed
        { ready with keys := none :: ready.savedKeys } := by
    apply hSaved.withKeys
    · rw [List.length_cons, hSaved.keys]
    · intro key hMem
      rcases List.mem_cons.mp hMem with hEq | hMem
      · cases hEq
      · exact hSaved.idle key hMem
  rcases (hPushed.withAllowed true).addSkipping hCursor hLine
      kind with ⟨done, hDone, hNext⟩
  refine ⟨done, ?_, hNext⟩
  rw [Lex.flowStart, bind_ok hSave, bind_ok modify_ok,
    bind_ok (Lex.allowKey_ok true)]
  exact hDone

/- A collection ends. -/
theorem flowEnd
    (hAt :
      FlowAt size (c :: more) kinds (depth + 1) allowed ready)
    (hCursor : ready.cursor = Cursor.on (c :: more) size mark)
    (hLine : isBreak c = false)
    (kind : TokenKind) :
    ∃ done,
      Lex.flowEnd kind ready = .ok ((), done) ∧
        FlowAt size more (kinds ++ [kind]) depth false done ∧
          done.cursor.rest.length ≤ more.length := by
  rcases hAt.dropKey with ⟨hDrop, hDropped⟩
  have hPopped :
      FlowAt size (c :: more) kinds depth allowed
        { ready with keys := ready.keys.tail } := by
    apply hDropped.withKeys
    · rw [List.length_tail, hAt.keys]
      rfl
    · intro key hMem
      exact hAt.idle key (List.mem_of_mem_tail hMem)
  rcases (hPopped.withAllowed false).addSkipping hCursor hLine
      kind with ⟨done, hDone, hNext⟩
  refine ⟨done, ?_, hNext⟩
  rw [Lex.flowEnd, bind_ok hDrop, bind_ok modify_ok]
  rw [hDropped.inFlow]
  rw [bind_ok (Lex.allowKey_ok false)]
  exact hDone

/- The next item or field of a collection begins. -/
theorem flowEntry
    (hAt : FlowAt size (c :: more) kinds depth allowed ready)
    (hCursor : ready.cursor = Cursor.on (c :: more) size mark)
    (hLine : isBreak c = false) :
    ∃ done,
      Lex.flowEntry ready = .ok ((), done) ∧
        FlowAt size more (kinds ++ [.flowEntry]) depth true
          done ∧
          done.cursor.rest.length ≤ more.length := by
  rcases hAt.dropKey with ⟨hDrop, hDropped⟩
  rcases (hDropped.withAllowed true).addSkipping hCursor hLine
      .flowEntry with ⟨done, hDone, hNext⟩
  refine ⟨done, ?_, hNext⟩
  rw [Lex.flowEntry, bind_ok hDrop,
    bind_ok (Lex.allowKey_ok true)]
  exact hDone

/- A token that may begin a key. -/
theorem keyStart
    (hAt : FlowAt size rest kinds depth allowed ready)
    {reading : Scan Token}
    {token : Token}
    (hReading :
      reading ready.cursor =
        .ok (token, Cursor.on more size mark))
    (hSize : more.length ≤ size) :
    ∃ done,
      Lex.keyStart reading ready = .ok ((), done) ∧
        FlowAt size more (kinds ++ [token.kind]) depth false
          done ∧
          done.cursor = Cursor.on more size mark ∧
            done.count = ready.count + 1 ∧
              done.keys = ready.savedKeys := by
  rcases hAt.saveKey with ⟨hSave, hSaved⟩
  refine
    ⟨_, ?_,
      (hSaved.withAllowed false).withToken hSize token mark,
      rfl, rfl, rfl⟩
  rw [Lex.keyStart, bind_ok hSave,
    bind_ok (Lex.allowKey_ok false),
    bind_ok (Lex.scan_ok (by exact hReading)), Lex.add_ok]

/- A scalar without quotes. -/
theorem plainScalar
    (hAt : FlowAt size rest kinds depth allowed ready)
    {token : Token}
    {broken : Bool}
    (hReading :
      Scan.plainScalar (-1) (decide (depth ≠ 0))
          ready.cursor =
        .ok ((token, broken), Cursor.on more size mark))
    (hSize : more.length ≤ size) :
    ∃ done,
      Lex.plainScalar ready = .ok ((), done) ∧
        FlowAt size more (kinds ++ [token.kind]) depth false
          done ∧
          done.cursor.rest.length ≤ more.length := by
  rcases hAt.saveKey with ⟨hSave, hSaved⟩
  rw [← hAt.indent, ← hAt.inFlow] at hReading
  refine
    ⟨{ ready with
        cursor := Cursor.on more size mark
        tokens := token :: ready.tokens
        count := ready.count + 1
        keys := ready.savedKeys
        keyAllowed := broken },
      ?_,
      ((hSaved.withAllowed broken).withToken hSize token
        mark).forget,
      Nat.le_refl _⟩
  have hInFlow :
      Lexer.inFlow
          { ready with
            keys := ready.savedKeys
            keyAllowed := false } =
        ready.inFlow := by
    rw [(hSaved.withAllowed false).inFlow, hAt.inFlow]
  rw [Lex.plainScalar, bind_ok hSave,
    bind_ok (Lex.allowKey_ok false), bind_ok get_ok, hInFlow,
    bind_ok (Lex.scan_ok (by exact hReading))]
  cases broken <;> rfl

/- A colon behind what may have begun a key. -/
theorem value
    {kind : TokenKind}
    (hAt :
      FlowAt size (':' :: more) (kinds ++ [kind]) depth
        allowed ready)
    (hFlow : depth ≠ 0)
    (hCursor :
      ready.cursor = Cursor.on (':' :: more) size mark)
    {key : PendingKey}
    (hKey : ready.keys.head? = some (some key))
    (hNumber : key.number + 1 = ready.count) :
    ∃ done,
      Lex.value ready = .ok ((), done) ∧
        FlowAt size more (kinds ++ [.key, kind, .value]) depth
          false done ∧
          done.cursor.rest.length ≤ more.length := by
  have hTokens := hAt.tokens
  have hCount := hAt.count
  rcases hAt.exists_keys with
    ⟨first, outer, hKeys, _, hLength, hIdle⟩
  rw [hKeys, List.head?_cons, Option.some.injEq] at hKey
  subst hKey
  have hInFlow := hAt.inFlow
  cases hRead : ready.tokens with
  | nil =>
      rw [hRead] at hTokens
      exact absurd hTokens.symm (by simp)
  | cons scalar older =>
      rw [hRead, List.length_cons] at hCount
      rw [hRead, List.reverse_cons, List.map_append]
        at hTokens
      have hOlder := List.append_inj_left' hTokens rfl
      have hScalar := List.append_inj_right' hTokens rfl
      let token : Token := ⟨.key, key.mark, key.mark⟩
      have hInsert :
          ready.insert key.number token =
            { ready with
              tokens := scalar :: token :: older
              count := ready.count + 1 } := by
        unfold Lexer.insert
        have hBehind : ready.count - key.number = 1 := by
          omega
        rw [hBehind, hRead]
        rfl
      have hInserted :
          FlowAt size (':' :: more) (kinds ++ [.key, kind])
            depth allowed
            { ready with
              tokens := scalar :: token :: older
              count := ready.count + 1
              keys := none :: outer } := by
        refine
          { hAt.withKeys
              (by rw [List.length_cons, hLength]) ?_ with
            tokens := ?_
            count := ?_ }
        · intro other hMem
          rcases List.mem_cons.mp hMem with hEq | hMem
          · cases hEq
          · exact hIdle other hMem
        · rw [List.reverse_cons, List.reverse_cons,
            List.map_append, List.map_append, hOlder, hScalar,
            List.append_assoc]
          rfl
        · rw [hCount]
          rfl
      rcases (hInserted.withAllowed false).addSkipping hCursor
          rfl .value with ⟨done, hDone, hNext⟩
      refine ⟨done, ?_, by simpa using hNext⟩
      rw [Lex.value, bind_ok get_ok, hKeys]
      simp only [List.head?_cons]
      have hInside :
          Lexer.inFlow
              { ready with
                tokens := scalar :: token :: older
                count := ready.count + 1 } =
            true := by
        change ready.inFlow = true
        rw [hInFlow, decide_eq_true_iff]
        exact hFlow
      have hKept : ready.keys.tail = outer := by
        rw [hKeys, List.tail_cons]
      rw [hInsert, bind_ok set_ok,
        bind_ok (Lex.indentTo_of_inFlow hInside _ _ _ _),
        bind_ok (Lex.replaceKey_ok none),
        bind_ok (Lex.allowKey_ok false), hKept]
      exact hDone

end FlowAt

end Yaml

end Transclusion

------------------------------------------------------------
-- Keys
------------------------------------------------------------

namespace Transclusion

namespace Yaml

namespace FlowAt

variable {size depth : Nat}
variable {more text written : List Char}
variable {kinds : List TokenKind}
variable {kind : TokenKind}
variable {allowed : Bool}
variable {lexer : Lexer}
variable {mark : Mark}

/- A text in double quotes is read as what may be a key. -/
theorem keyScalar
    (hAt :
      FlowAt size ('"' :: (written ++ '"' :: more)) kinds depth
        true lexer)
    (hText : QuotedText false text written)
    (hLine : ∀ c ∈ written, isBreak c = false)
    (hShort : byteCount written + 2 ≤ 1024) :
    ∃ next key behind,
      Fetches lexer next ∧
        FlowAt size more
          (kinds ++ [.scalar text .doubleQuoted]) depth false
          next ∧
          next.cursor = Cursor.on more size behind ∧
            next.keys.head? = some (some key) ∧
              key.number + 1 = next.count ∧
                key.isStale behind = false := by
  have hBegins :=
    beginsToken_indicator (show '"' ∈ _ by decide)
      (written ++ '"' :: more)
  rcases hAt.exists_gap hBegins.trimGap with
    ⟨gap, mark, hCursor, hSize, hGap⟩
  have hLength := hSize
  simp only [List.length_append, List.length_cons] at hLength
  generalize hReadyIs :
    lexer.atToken ('"' :: (written ++ '"' :: more)) gap = ready
  have hReady :
      FlowAt size ('"' :: (written ++ '"' :: more)) kinds depth
        true ready := by
    rw [← hReadyIs]
    apply hAt.atToken gap (by rw [hCursor]; rfl)
    rw [List.length_cons, List.length_append, List.length_cons]
    omega
  have hAfter :
      ready.cursor =
        Cursor.on ('"' :: (written ++ '"' :: more)) size
          (mark.after gap) := by
    rw [← hReadyIs]
    unfold Lexer.atToken
    rw [hCursor]
    rfl
  have hRead :=
    (congrArg (Scan.quotedScalar false) hAfter).trans
      (Scan.quotedScalar_text hText Bool.noConfusion
        (by omega))
  rcases hReady.keyStart hRead (by omega) with
    ⟨done, hRun, hDone, hBehind, hCount, hKeys⟩
  have hDispatch :
      Lex.dispatch '"' ready =
        Lex.keyStart (Scan.quotedScalar false) ready := by
    rw [Lex.dispatch, bind_ok get_ok,
      bind_ok (Lex.scan_peekAt_one hAfter)]
    rfl
  have hLess :
      done.cursor.rest.length ≤ (written ++ '"' :: more).length := by
    rw [hBehind, List.length_append, List.length_cons]
    exact Nat.le_trans (Nat.le_succ _) (Nat.le_add_left _ _)
  rcases hAt.fetches hCursor hSize hGap hBegins hReadyIs
      (hDispatch.trans hRun) hDone (by simp) hLess with
    ⟨next, hFetches, hNext, hNextCursor, hNextCount, hNextKeys⟩
  let key : PendingKey :=
    ⟨ready.count,
      !ready.inFlow &&
        ready.indent == (ready.cursor.mark.column : Int),
      mark.after gap⟩
  have hSaved : done.keys.head? = some (some key) := by
    rw [hKeys]
    unfold Lexer.savedKeys key
    rw [if_pos (hReady.allowed rfl), hAfter]
    rfl
  have hWhole :
      ∀ c ∈ '"' :: (written ++ ['"']), isBreak c = false := by
    intro c hMem
    rcases List.mem_cons.mp hMem with rfl | hMem
    · rfl
    · rcases List.mem_append.mp hMem with hMem | hMem
      · exact hLine c hMem
      · rw [List.mem_singleton.mp hMem]
        rfl
  have hBytes :
      byteCount ('"' :: (written ++ ['"'])) ≤ 1024 := by
    have hQuote : byteCount ['"'] = 1 := rfl
    have hByte : ('"').utf8Size = 1 := rfl
    rw [byteCount_cons, byteCount_append]
    omega
  have hFresh :
      key.isStale
          ((mark.after gap).after
            ('"' :: (written ++ ['"']))) =
        false :=
    PendingKey.isStale_after hWhole hBytes
  rw [hBehind] at hNextCursor hNextKeys
  refine
    ⟨next, key, _, hFetches, hNext, hNextCursor, ?_, ?_, hFresh⟩
  · rw [hNextKeys]
    exact Lexer.head?_freshKeys hSaved hFresh
  · rw [hNextCount, hCount]

/- The colon behind it makes it a key. -/
theorem colon
    (hAt :
      FlowAt size (':' :: more) (kinds ++ [kind]) depth
        allowed lexer)
    (hFlow : depth ≠ 0)
    (hCursor :
      lexer.cursor = Cursor.on (':' :: more) size mark)
    {key : PendingKey}
    (hKey : lexer.keys.head? = some (some key))
    (hNumber : key.number + 1 = lexer.count)
    (hFresh : key.isStale mark = false) :
    ∃ next,
      Fetches lexer next ∧
        FlowAt size more (kinds ++ [.key, kind, .value]) depth
          false next := by
  have hBegins :=
    beginsToken_indicator (show ':' ∈ _ by decide) more
  have hSize := hAt.length_le hCursor
  have hReady :=
    hAt.atToken [] (by rw [hCursor]; rfl) hSize
  have hAfter :
      (lexer.atToken (':' :: more) []).cursor =
        Cursor.on (':' :: more) size mark := by
    unfold Lexer.atToken
    rw [hCursor]
    rfl
  have hKept :
      (lexer.atToken (':' :: more) []).keys.head? =
        some (some key) := by
    unfold Lexer.atToken
    rw [hCursor]
    exact Lexer.head?_freshKeys hKey hFresh
  have hDispatch :
      Lex.dispatch ':' (lexer.atToken (':' :: more) []) =
        Lex.value (lexer.atToken (':' :: more) []) := by
    have hInside : decide (depth ≠ 0) = true := by
      simpa using hFlow
    rw [Lex.dispatch, bind_ok get_ok,
      bind_ok (Lex.scan_peekAt_one hAfter), hReady.inFlow,
      hInside]
    rfl
  rcases hReady.value hFlow hAfter hKept hNumber with
    ⟨done, hRun, hDone, hLess⟩
  rcases hAt.fetches (by exact hCursor) hSize
      (List.forall_mem_nil _) hBegins rfl
      (hDispatch.trans hRun) hDone (by simp) hLess with
    ⟨next, hFetches, hNext, _⟩
  exact ⟨next, hFetches, hNext⟩

end FlowAt

end Yaml

end Transclusion

------------------------------------------------------------
-- Brackets
------------------------------------------------------------

namespace Transclusion

namespace Yaml

/- The brackets of a collection, and their tokens. -/
inductive Brackets :
    Char → Char → TokenKind → TokenKind → Prop where
  | sequence :
      Brackets '[' ']' .flowSequenceStart .flowSequenceEnd
  | mapping :
      Brackets '{' '}' .flowMappingStart .flowMappingEnd

namespace Brackets

variable {first last : Char}
variable {start stop : TokenKind}
variable {rest : List Char}
variable {size : Nat}
variable {mark : Mark}
variable {lexer : Lexer}

/- Brackets are tokens that stay within a line. -/
theorem begins
    (hPair : Brackets first last start stop)
    (rest : List Char) :
    (BeginsToken (first :: rest) ∧ isBreak first = false) ∧
      (BeginsToken (last :: rest) ∧ isBreak last = false) := by
  cases hPair <;>
    exact
      ⟨⟨beginsToken_indicator (by decide) rest, rfl⟩,
        beginsToken_indicator (by decide) rest, rfl⟩

/- The tokens of brackets do not end a stream. -/
theorem kinds_ne
    (hPair : Brackets first last start stop) :
    start ≠ .streamEnd ∧ stop ≠ .streamEnd := by
  cases hPair <;>
    exact ⟨TokenKind.noConfusion, TokenKind.noConfusion⟩

/- The first bracket starts a collection. -/
theorem dispatch_first
    (hPair : Brackets first last start stop)
    (hCursor :
      lexer.cursor = Cursor.on (first :: rest) size mark) :
    Lex.dispatch first lexer = Lex.flowStart start lexer := by
  rw [Lex.dispatch, bind_ok get_ok,
    bind_ok (Lex.scan_peekAt_one hCursor)]
  cases hPair <;> rfl

/- The last one ends it. -/
theorem dispatch_last
    (hPair : Brackets first last start stop)
    (hCursor :
      lexer.cursor = Cursor.on (last :: rest) size mark) :
    Lex.dispatch last lexer = Lex.flowEnd stop lexer := by
  rw [Lex.dispatch, bind_ok get_ok,
    bind_ok (Lex.scan_peekAt_one hCursor)]
  cases hPair <;> rfl

end Brackets

end Yaml

end Transclusion

------------------------------------------------------------
-- Readings
------------------------------------------------------------

namespace Transclusion

namespace Yaml

/- Where a lexer stands in a text of flow collections. -/
structure FlowPlace where
  rest : List Char
  depth : Nat
  allowed : Bool

/- From one place to another some tokens are read. -/
@[reducible]
def FlowReads
    (size : Nat) :
    FlowPlace → List TokenKind → FlowPlace → Prop :=
  Lexes fun place kinds lexer =>
    FlowAt size place.rest kinds place.depth place.allowed
      lexer

namespace FlowReads

variable {size depth : Nat}
variable {after : FlowPlace}
variable {produced : List TokenKind}
variable {text written rest more : List Char}
variable {allowed : Bool}

/- A gap in front of the text does not matter. -/
theorem behindGap
    {gap : List Char}
    (hGap : ∀ c ∈ gap, isSpacing c = true)
    (hReads :
      FlowReads size ⟨rest, depth, allowed⟩ produced after) :
    FlowReads size ⟨gap ++ rest, depth, allowed⟩ produced
      after := by
  intro kinds lexer hAt
  apply hReads kinds lexer
  apply hAt.of_trimGap_eq
  unfold trimGap
  exact List.dropWhile_append_of_pos hGap

/- A token of one character. -/
theorem ofRule
    {c : Char}
    {kind : TokenKind}
    {depthAfter : Nat}
    {allowedAfter : Bool}
    {rule : Lex Unit}
    (hStart : BeginsToken (c :: more))
    (hKind : kind ≠ .streamEnd)
    (hDispatch :
      ∀ ready mark,
        ready.cursor = Cursor.on (c :: more) size mark →
          Lex.dispatch c ready = rule ready)
    (hRule :
      ∀ kinds ready mark,
        FlowAt size (c :: more) kinds depth allowed ready →
          ready.cursor = Cursor.on (c :: more) size mark →
            ∃ done,
              rule ready = .ok ((), done) ∧
                FlowAt size more (kinds ++ [kind]) depthAfter
                  allowedAfter done ∧
                  done.cursor.rest.length ≤ more.length) :
    FlowReads size ⟨c :: more, depth, allowed⟩ [kind]
      ⟨more, depthAfter, allowedAfter⟩ := by
  intro kinds lexer hAt
  apply hAt.step hStart (by simpa using hKind)
  intro ready mark hCursor hReady
  rw [hDispatch ready mark hCursor]
  exact hRule kinds ready mark hReady hCursor

/- The first bracket begins a collection. -/
theorem first
    {c last : Char}
    {start stop : TokenKind}
    (hPair : Brackets c last start stop) :
    FlowReads size ⟨c :: more, depth, allowed⟩ [start]
      ⟨more, depth + 1, true⟩ := by
  have hBegins := (hPair.begins more).1
  apply ofRule hBegins.1 hPair.kinds_ne.1
  · intro ready mark hCursor
    exact hPair.dispatch_first hCursor
  · intro kinds ready mark hAt hCursor
    exact hAt.flowStart hCursor hBegins.2 start

/- The last bracket ends it. -/
theorem last
    {first c : Char}
    {start stop : TokenKind}
    (hPair : Brackets first c start stop) :
    FlowReads size ⟨c :: more, depth + 1, allowed⟩ [stop]
      ⟨more, depth, false⟩ := by
  have hBegins := (hPair.begins more).2
  apply ofRule hBegins.1 hPair.kinds_ne.2
  · intro ready mark hCursor
    exact hPair.dispatch_last hCursor
  · intro kinds ready mark hAt hCursor
    exact hAt.flowEnd hCursor hBegins.2 stop

/- A comma stands before the next item or field. -/
theorem entry :
    FlowReads size ⟨',' :: more, depth, allowed⟩ [.flowEntry]
      ⟨more, depth, true⟩ := by
  apply ofRule (beginsToken_indicator (by decide) more)
    TokenKind.noConfusion
  · intro ready mark hCursor
    rw [Lex.dispatch, bind_ok get_ok,
      bind_ok (Lex.scan_peekAt_one hCursor)]
  · intro kinds ready mark hAt hCursor
    exact hAt.flowEntry hCursor rfl

/- A text in double quotes. -/
theorem quoted
    (hText : QuotedText false text written) :
    FlowReads size
      ⟨'"' :: (written ++ '"' :: more), depth, allowed⟩
      [.scalar text .doubleQuoted] ⟨more, depth, false⟩ := by
  intro kinds lexer hAt
  apply
    hAt.step (beginsToken_indicator (by decide) _) (by simp)
  intro ready mark hCursor hReady
  have hSize := hReady.length_le hCursor
  simp only [List.length_cons, List.length_append] at hSize
  have hRead :=
    (congrArg (Scan.quotedScalar false) hCursor).trans
      (Scan.quotedScalar_text hText Bool.noConfusion
        (by omega))
  rcases hReady.keyStart hRead (by omega) with
    ⟨done, hRun, hDone, hBehind, _⟩
  refine ⟨done, ?_, hDone, ?_⟩
  · rw [Lex.dispatch, bind_ok get_ok,
      bind_ok (Lex.scan_peekAt_one hCursor)]
    exact hRun
  · rw [hBehind, List.length_append, List.length_cons]
    exact Nat.le_trans (Nat.le_succ _) (Nat.le_add_left _ _)

/- A text without quotes. -/
theorem plain
    (hText : PlainText (decide (depth ≠ 0)) text)
    (hBegins : BeginsToken (text ++ rest))
    (hPlain :
      ∀ c ∈ text.head?,
        Lex.startsPlain (decide (depth ≠ 0)) c
            (text ++ rest)[1]? =
          true)
    (hDash :
      text.head? = some '-' →
        isGap (text ++ rest)[1]? = false)
    (hEnds : EndsPlain (decide (depth ≠ 0)) (trimGap rest)) :
    FlowReads size ⟨text ++ rest, depth, allowed⟩
      [.scalar text .plain] ⟨rest, depth, false⟩ := by
  intro kinds lexer hAt
  rcases hText.exists_cons with ⟨first, more, rfl, hFirst⟩
  have hBegins : BeginsToken (first :: (more ++ rest)) :=
    hBegins
  have hSplit :
      rest.takeWhile isSpacing ++ trimGap rest = rest :=
    List.takeWhile_append_dropWhile
  have hAt :
      FlowAt size (first :: (more ++ rest)) kinds depth
        allowed lexer :=
    hAt
  apply hAt.step hBegins (by simp)
  intro ready mark hCursor hReady
  have hSize := hReady.length_le hCursor
  have hParts := congrArg List.length hSplit
  simp only [List.length_cons, List.length_append]
    at hSize hParts
  have hWhole :
      ready.cursor =
        Cursor.on
          ((first :: more) ++
            (rest.takeWhile isSpacing ++ trimGap rest))
          size mark := by
    rw [hCursor, hSplit]
    rfl
  have hRuled :
      ¬ IsRuled
        ((first :: more) ++
          (rest.takeWhile isSpacing ++ trimGap rest)) := by
    rw [hSplit]
    exact hBegins.ruled
  have hTail :
      ∀ c ∈ (trimGap rest).head?, isGap (some c) = false := by
    intro c hMem
    exact isGap_of_endsPlain hEnds hMem
  have hComment : (first :: more).head? ≠ some '#' := by
    intro hEq
    cases hEq
    exact (hBegins.starts _ rfl).2.1 rfl
  have hRead :=
    (congrArg (Scan.plainScalar (-1) (decide (depth ≠ 0)))
      hWhole).trans
      (Scan.plainScalar_text (-1) hText (Or.inr hRuled)
        hComment (fun c => List.mem_takeWhile_imp) hTail
        (Or.inr hEnds) (fun _ => by omega)
        (by rw [List.length_cons]; omega))
  rcases hReady.plainScalar hRead (by omega) with
    ⟨done, hRun, hDone, hLess⟩
  refine ⟨done, ?_, hDone.of_trimGap_eq ?_, ?_⟩
  · rw [Lex.dispatch_plain hCursor, hRun]
    · rw [hReady.inFlow, List.head?_eq_getElem?]
      exact hPlain first rfl
    · rintro rfl
      rw [List.head?_eq_getElem?]
      exact hDash rfl
  · unfold trimGap
    rw [List.dropWhile_idempotent]
  · rw [List.length_append]
    omega

/- A key in double quotes, with its colon. -/
theorem key
    (hText : QuotedText false text written)
    (hLine : ∀ c ∈ written, isBreak c = false)
    (hShort : byteCount written + 2 ≤ 1024) :
    FlowReads size
      ⟨'"' :: (written ++ '"' :: ':' :: more), depth + 1,
        true⟩
      [.key, .scalar text .doubleQuoted, .value]
      ⟨more, depth + 1, false⟩ := by
  intro kinds lexer hAt
  rcases hAt.keyScalar hText hLine hShort with
    ⟨middle, pending, mark, hMiddle, hAt, hCursor, hKey, hNumber,
      hFresh⟩
  rcases hAt.colon (Nat.succ_ne_zero depth) hCursor hKey hNumber
      hFresh with
    ⟨next, hNext, hAt⟩
  exact ⟨next, hMiddle.trans hNext, hAt⟩

end FlowReads

end Yaml

end Transclusion

------------------------------------------------------------
-- Streams
------------------------------------------------------------

namespace Transclusion

namespace Yaml

namespace FlowAt

variable {size depth : Nat}
variable {text : List Char}
variable {kinds : List TokenKind}
variable {allowed : Bool}
variable {lexer ready : Lexer}
variable {mark : Mark}

/- The start of a text without faults. -/
theorem start
    (text : List Char) :
    FlowAt text.length text [.streamStart] 0 true
      (Lexer.start text) :=
  { cursor := ⟨text, Mark.start, rfl, Nat.le_refl _, rfl⟩
    tokens := rfl
    count := rfl
    keys := rfl
    idle := by
      intro key hMem
      cases List.mem_singleton.mp hMem
    indent := rfl
    indents := rfl
    allowed := fun _ => rfl }

/- The document is closed without any further tokens. -/
theorem closeDocument
    (hAt : FlowAt size text kinds depth allowed ready) :
    ∃ done,
      Lex.closeDocument ready = .ok ((), done) ∧
        done.cursor = ready.cursor ∧
          FlowAt size text kinds depth false done := by
  rcases hAt.dropKey with ⟨hDrop, hDropped⟩
  have hClosed := hDropped.withAllowed false
  refine ⟨_, ?_, ?_, hClosed⟩
  · rw [Lex.closeDocument, bind_ok (hAt.unindentTo (-1)),
      bind_ok hDrop]
    rfl
  · rfl

/- The end of the stream is added. -/
theorem streamEnd
    (hAt : FlowAt size [] kinds depth allowed ready)
    (hCursor : ready.cursor = Cursor.on [] size mark) :
    ∃ done,
      Lex.streamEnd ready = .ok ((), done) ∧
        FlowAt size [] (kinds ++ [.streamEnd]) depth false
          done := by
  rcases Lex.exists_streamEnd hCursor with ⟨ending, hEnd⟩
  have hEnding :
      FlowAt size [] kinds depth allowed
        { ready with cursor := Cursor.on [] size ending } :=
    { hAt with
      cursor := ⟨[], ending, rfl, Nat.zero_le _, rfl⟩ }
  rcases hEnding.closeDocument with
    ⟨closed, hClose, hMark, hClosed⟩
  have hUnmoved : closed.cursor = Cursor.on [] size ending :=
    hMark
  have hNone : ([] : List Char).length ≤ size :=
    Nat.zero_le size
  have hDone :=
    hClosed.withToken hNone ⟨.streamEnd, ending, ending⟩
      ending
  have hScan :
      Lex.scan Scan.mark closed = .ok (ending, closed) := by
    apply Lex.scan_look
    rw [hUnmoved]
    exact Scan.mark_on
  refine ⟨_, ?_, hDone⟩
  rw [hEnd, bind_ok hClose, bind_ok hScan, Lex.addEmpty,
    Lex.add_ok, ← hUnmoved]

/- The end of a text is the end of the stream. -/
theorem fetch_end
    (hAt : FlowAt size [] kinds depth allowed lexer) :
    ∃ next,
      Lex.fetch lexer = .ok ((), next) ∧
        next.tokens.reverse.map Token.kind =
          kinds ++ [.streamEnd] := by
  rcases hAt.exists_gap rfl with
    ⟨gap, mark, hCursor, hSize, hGap⟩
  rw [List.append_nil] at hCursor hSize
  have hReady : FlowAt size [] kinds depth allowed
      (lexer.atToken [] gap) :=
    hAt.atToken gap (by rw [hCursor]; rfl) (Nat.zero_le size)
  have hAfter :
      (lexer.atToken [] gap).cursor =
        Cursor.on [] size (mark.after gap) := by
    unfold Lexer.atToken
    rw [hCursor]
    rfl
  rcases hReady.streamEnd hAfter with ⟨done, hEnd, hDone⟩
  refine ⟨_, ?_, (hDone.fresh done.cursor.mark).tokens⟩
  rw [Lex.fetch_end hCursor hSize hGap _
    (hReady.unindentTo _) hAfter, bind_ok hEnd,
    hDone.dropStale]
  intro key hMem hRequired
  rw [hAt.idle key hMem] at hRequired
  cases hRequired

end FlowAt

/- A text that is read to its end has the tokens read. -/
theorem FlowReads.tokens_ofText
    {text : List Char}
    {produced : List TokenKind}
    {depth : Nat}
    {allowed : Bool}
    (hAllowed : ∀ c ∈ text, isAllowed c = true)
    (hReads :
      FlowReads text.length ⟨text, 0, true⟩ produced
        ⟨[], depth, allowed⟩) :
    (TokenStream.ofText text).tokens.map Token.kind =
      .streamStart :: produced ++ [.streamEnd] := by
  rcases hReads _ _ (FlowAt.start text) with
    ⟨last, hFetches, hLast⟩
  rcases hLast.fetch_end with ⟨next, hEnd, hTokens⟩
  exact hFetches.tokens_ofText hAllowed hEnd hTokens

end Yaml

end Transclusion
