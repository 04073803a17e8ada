import Transclusion.Proofs.Yaml.FlowLexing

/-
  Lexers in block collections.

  Key definitions include:
    * `Transclusion.Yaml.Opens`
    * `Transclusion.Yaml.BlockAt`
    * `Transclusion.Yaml.BlockReady`

  Key theorems include:
    * `Transclusion.Yaml.BlockAt.step`

  A collection ends in front of the first token that is
  indented less.  The end of a text counts as such a token.
-/

------------------------------------------------------------
-- Indentation
------------------------------------------------------------

namespace Transclusion

namespace Yaml

/- The indentations of open collections, and of none. -/
def indentStack
    (levels : List Nat) : List Int :=
  levels.map Int.ofNat ++ [-1]

/- The indentations of a lexer, the innermost one first. -/
def Lexer.stack
    (lexer : Lexer) : List Int :=
  lexer.indent :: lexer.indents

/-
  How a token at a column opens a collection: one that is
  indented more than the others, or none if there is one.
-/
inductive Opens
    (kind : TokenKind)
    (column : Nat) :
    List Nat → List TokenKind → List Nat → Prop where
  | first
      {levels : List Nat}
      (hDeeper : ∀ level ∈ levels.head?, level < column) :
      Opens kind column levels [kind] (column :: levels)
  | next
      {levels : List Nat} :
      Opens kind column (column :: levels) []
        (column :: levels)

/- The open collections are indented no more. -/
theorem Opens.levels_le
    {kind : TokenKind}
    {column : Nat}
    {levels levelsAfter : List Nat}
    {starts : List TokenKind}
    (hOpens : Opens kind column levels starts levelsAfter) :
    ∀ level ∈ levels.head?, level ≤ column := by
  cases hOpens with
  | first hDeeper =>
      exact fun level hMem => Nat.le_of_lt (hDeeper level hMem)
  | next =>
      intro level hMem
      cases hMem
      exact Nat.le_refl column

namespace Lex

variable {lexer : Lexer}
variable {levels pending : List Nat}

/- The innermost indentation of a stack. -/
theorem indent_of_stack
    (hStack : lexer.stack = indentStack levels) :
    lexer.indent = (levels.head?.map Int.ofNat).getD (-1) := by
  have hHead := congrArg List.head? hStack
  cases levels with
  | nil => exact Option.some.inj hHead
  | cons level levels => exact Option.some.inj hHead

/- A column beyond all open collections is indented more. -/
theorem indent_lt_of_stack
    {column : Nat}
    (hStack : lexer.stack = indentStack levels)
    (hDeeper : ∀ level ∈ levels.head?, level < column) :
    lexer.indent < (column : Int) := by
  have hIndent := indent_of_stack hStack
  cases levels with
  | nil =>
      have hNone : lexer.indent = -1 := hIndent
      omega
  | cons level levels =>
      have hOuter : lexer.indent = (level : Int) := hIndent
      have hLess := hDeeper level rfl
      omega

/- What is left after the tokens that close collections. -/
def closed
    (lexer : Lexer)
    (mark : Mark)
    (count : Nat)
    (stack : List Int) : Lexer :=
  { lexer with
    tokens :=
      List.replicate count ⟨.blockEnd, mark, mark⟩ ++
        lexer.tokens
    count := lexer.count + count
    indent := stack.head?.getD (-1)
    indents := stack.tail }

/- The collections that are indented more are closed. -/
theorem closeTo_pending
    {column : Int}
    (mark : Mark)
    (hStack : lexer.stack = indentStack (pending ++ levels))
    (hPending : ∀ level ∈ pending, column < level)
    (hLevels : ∀ level ∈ levels.head?, (level : Int) ≤ column)
    (hColumn : -1 ≤ column) :
    closeTo column mark lexer.indents lexer =
      .ok ((),
        closed lexer mark pending.length
          (indentStack levels)) := by
  induction pending generalizing lexer with
  | nil =>
      have hDone :
          closed lexer mark 0 (indentStack levels) = lexer := by
        rw [List.nil_append] at hStack
        rw [← hStack]
        rfl
      have hIndent : ¬ column < lexer.indent := by
        rw [indent_of_stack hStack]
        cases levels with
        | nil => exact Int.not_lt.mpr hColumn
        | cons level levels =>
            exact Int.not_lt.mpr (hLevels level rfl)
      rw [List.length_nil, hDone]
      cases lexer.indents with
      | nil => rfl
      | cons outer more =>
          rw [closeTo, bind_ok get_ok, if_neg hIndent, pure_ok]
  | cons level pending ih =>
      rw [List.forall_mem_cons] at hPending
      have hSplit :
          lexer.indent = (level : Int) ∧
            lexer.indents = indentStack (pending ++ levels) :=
        List.cons.inj hStack
      rw [hSplit.2]
      cases hInner : indentStack (pending ++ levels) with
      | nil =>
          exact absurd hInner (by simp [indentStack])
      | cons outer more =>
          have hLess : column < lexer.indent := by
            rw [hSplit.1]
            exact hPending.1
          have hMore
              (next : Lexer)
              (hNext : next.stack = outer :: more) :
              closeTo column mark more next =
                .ok ((),
                  closed next mark pending.length
                    (indentStack levels)) := by
            have hInners := (List.cons.inj hNext).2
            rw [← hInners]
            exact ih (hNext.trans hInner.symm) hPending.2
          rw [closeTo, bind_ok get_ok, if_pos hLess,
            bind_ok set_ok, addEmpty, bind_ok (add_ok _),
            hMore _ rfl, List.length_cons]
          unfold closed
          congr 3
          · simp [List.replicate_succ']
          · simp only
            omega

/- The collections that are left open. -/
theorem stack_closed
    (lexer : Lexer)
    (mark : Mark)
    (count : Nat)
    (levels : List Nat) :
    (closed lexer mark count (indentStack levels)).stack =
      indentStack levels := by
  unfold closed Lexer.stack
  cases hStack : indentStack levels with
  | nil => exact absurd hStack (by simp [indentStack])
  | cons level others => rfl

/- Outside of flow collections a token closes some. -/
theorem unindentTo_pending
    {column : Int}
    (hFlow : lexer.inFlow = false)
    (hStack : lexer.stack = indentStack (pending ++ levels))
    (hPending : ∀ level ∈ pending, column < level)
    (hLevels : ∀ level ∈ levels.head?, (level : Int) ≤ column)
    (hColumn : -1 ≤ column) :
    unindentTo column lexer =
      .ok ((),
        closed lexer lexer.cursor.mark pending.length
          (indentStack levels)) := by
  rw [unindentTo, bind_ok get_ok, hFlow]
  exact
    closeTo_pending lexer.cursor.mark hStack hPending hLevels
      hColumn

end Lex

end Yaml

end Transclusion

------------------------------------------------------------
-- Lexers in Block Collections
------------------------------------------------------------

namespace Transclusion

namespace Yaml

/-
  Where a lexer stands in a text of block collections: what
  is left from the next token on, and its column, with the
  indentations of the collections that are open there.  At
  the end of a text the column is in front of all others.
-/
structure BlockPlace where
  rest : List Char
  column : Int
  levels : List Nat
  allowed : Bool

/-
  A lexer in front of a gap, in which so many collections
  are still to be closed.  What may have begun a key before
  cannot be one behind the gap.
-/
structure BlockBefore
    (size : Nat)
    (place : BlockPlace)
    (kinds : List TokenKind)
    (gap : List Char)
    (mark : Mark)
    (pending : List Nat)
    (lexer : Lexer) : Prop where
  cursor : lexer.cursor = Cursor.on (gap ++ place.rest) size mark
  length : (gap ++ place.rest).length ≤ size
  spacing : ∀ c ∈ gap, isSpacing c = true
  column :
    place.column =
      if place.rest = [] then -1
      else ((mark.after gap).column : Int)
  allowed :
    place.allowed = true →
      (lexer.keyAllowed || gap.any isBreak) = true
  tokens :
    lexer.tokens.reverse.map Token.kind ++
        List.replicate pending.length .blockEnd =
      kinds
  count : lexer.count = lexer.tokens.length
  stack : lexer.stack = indentStack (pending ++ place.levels)
  deeper : ∀ level ∈ pending, place.column < (level : Int)
  keys :
    ∃ key,
      lexer.keys = [key] ∧
        ∀ waiting ∈ key,
          waiting.required = false ∧
            waiting.isStale (mark.after gap) = true
  running : TokenKind.streamEnd ∉ kinds

/- A lexer at a place, behind some tokens. -/
def BlockAt
    (size : Nat)
    (place : BlockPlace)
    (kinds : List TokenKind)
    (lexer : Lexer) : Prop :=
  ∃ gap mark pending,
    BlockBefore size place kinds gap mark pending lexer

/- A lexer that has just come to a token. -/
structure BlockReady
    (size : Nat)
    (text : List Char)
    (mark : Mark)
    (kinds : List TokenKind)
    (levels : List Nat)
    (allowed : Bool)
    (lexer : Lexer) : Prop where
  cursor : lexer.cursor = Cursor.on text size mark
  length : text.length ≤ size
  tokens : lexer.tokens.reverse.map Token.kind = kinds
  count : lexer.count = lexer.tokens.length
  stack : lexer.stack = indentStack levels
  keys : lexer.keys = [none]
  allowed : allowed = true → lexer.keyAllowed = true
  running : TokenKind.streamEnd ∉ kinds

namespace BlockBefore

variable {size : Nat}
variable {place : BlockPlace}
variable {kinds : List TokenKind}
variable {gap : List Char}
variable {mark : Mark}
variable {pending : List Nat}
variable {lexer : Lexer}

/- The lexer is in no flow collection. -/
theorem inFlow
    (hBefore :
      BlockBefore size place kinds gap mark pending lexer) :
    lexer.inFlow = false := by
  rcases hBefore.keys with ⟨key, hKeys, _⟩
  unfold Lexer.inFlow
  rw [hKeys]

/- No key has to turn out one. -/
theorem idle
    (hBefore :
      BlockBefore size place kinds gap mark pending lexer) :
    ∀ key, some key ∈ lexer.keys →
      key.required = true →
        key.isStale (mark.after gap) = false := by
  rcases hBefore.keys with ⟨key, hKeys, hIdle⟩
  intro waiting hMem hRequired
  rw [hKeys, List.mem_singleton] at hMem
  rw [(hIdle waiting hMem.symm).1] at hRequired
  cases hRequired

/- Behind the gap no key is left. -/
theorem freshKeys_eq
    (hBefore :
      BlockBefore size place kinds gap mark pending lexer) :
    Lexer.freshKeys (mark.after gap) lexer.keys = [none] := by
  rcases hBefore.keys with ⟨key, hKeys, hIdle⟩
  unfold Lexer.freshKeys
  rw [hKeys, List.map_singleton]
  cases key with
  | none => rfl
  | some waiting =>
      rw [Option.filter_some_neg]
      rw [(hIdle waiting rfl).2]
      rfl

/- The lexer behind the gap, with the collections closed. -/
def settled
    (lexer : Lexer)
    (place : BlockPlace)
    (gap : List Char)
    (mark : Mark)
    (pending : List Nat) : Lexer :=
  Lex.closed (lexer.atToken place.rest gap) (mark.after gap)
    pending.length (indentStack place.levels)

/- The lexer is in no flow collection behind the gap. -/
theorem inFlow_atToken
    (hBefore :
      BlockBefore size place kinds gap mark pending lexer) :
    (lexer.atToken place.rest gap).inFlow = false := by
  unfold Lexer.inFlow Lexer.atToken
  rw [hBefore.cursor]
  simp only [Cursor.on, hBefore.freshKeys_eq]

/- The place of the lexer behind the gap. -/
theorem cursor_atToken
    (hBefore :
      BlockBefore size place kinds gap mark pending lexer) :
    (lexer.atToken place.rest gap).cursor =
      Cursor.on place.rest size (mark.after gap) := by
  unfold Lexer.atToken
  rw [hBefore.cursor]
  rfl

/- Behind the gap the collections are closed. -/
theorem unindentTo_settled
    (hBefore :
      BlockBefore size place kinds gap mark pending lexer)
    {column : Int}
    (hColumn : -1 ≤ column)
    (hPending : ∀ level ∈ pending, column < (level : Int))
    (hLevels :
      ∀ level ∈ place.levels.head?, (level : Int) ≤ column) :
    Lex.unindentTo column (lexer.atToken place.rest gap) =
      .ok ((), settled lexer place gap mark pending) := by
  have hClose :=
    Lex.unindentTo_pending hBefore.inFlow_atToken
      (show (lexer.atToken place.rest gap).stack = _ from
        hBefore.stack)
      hPending hLevels hColumn
  rw [hBefore.cursor_atToken] at hClose
  exact hClose

/- Behind the gap the lexer has come to the next token. -/
theorem ready
    (hBefore :
      BlockBefore size place kinds gap mark pending lexer) :
    BlockReady size place.rest (mark.after gap) kinds
      place.levels place.allowed
      (settled lexer place gap mark pending) := by
  have hSize : lexer.cursor.size = size := by
    rw [hBefore.cursor]
    rfl
  have hLength := hBefore.length
  rw [List.length_append] at hLength
  refine ⟨?_, by omega, ?_, ?_, ?_, ?_, ?_, hBefore.running⟩
  · unfold settled Lex.closed Lexer.atToken
    rw [hSize, hBefore.cursor]
    rfl
  · rw [← hBefore.tokens]
    unfold settled Lex.closed Lexer.atToken
    simp
  · unfold settled Lex.closed Lexer.atToken
    simp only [List.length_append, List.length_replicate,
      hBefore.count]
    omega
  · exact Lex.stack_closed _ _ _ _
  · unfold settled Lex.closed Lexer.atToken
    rw [hBefore.cursor]
    exact hBefore.freshKeys_eq
  · intro hAllowed
    have hKey := hBefore.allowed hAllowed
    unfold settled Lex.closed Lexer.atToken
    simp only [hBefore.inFlow, Bool.not_false, Bool.true_and]
    exact hKey

/- A key may be given up. -/
theorem withKeys
    (hBefore :
      BlockBefore size place kinds gap mark pending lexer)
    {key kept : Option PendingKey}
    (hKeys : lexer.keys = [key])
    (hKept : ∀ waiting ∈ kept, waiting ∈ key) :
    BlockBefore size place kinds gap mark pending
      { lexer with keys := [kept] } := by
  rcases hBefore.keys with ⟨other, hOther, hIdle⟩
  rw [hKeys] at hOther
  cases hOther
  exact
    { hBefore with
      keys :=
        ⟨kept, rfl,
          fun waiting hMem => hIdle waiting (hKept _ hMem)⟩ }

/- Keys that reach too far are given up. -/
theorem fresh
    (hBefore :
      BlockBefore size place kinds gap mark pending lexer)
    (now : Mark) :
    BlockBefore size place kinds gap mark pending
      { lexer with keys := Lexer.freshKeys now lexer.keys } := by
  rcases hBefore.keys with ⟨key, hKeys, _⟩
  have hFresh :
      Lexer.freshKeys now lexer.keys =
        [key.filter fun key => !key.isStale now] := by
    rw [hKeys]
    rfl
  rw [hFresh]
  apply hBefore.withKeys hKeys
  intro waiting hMem
  exact (Option.mem_filter_iff.mp hMem).1

/- A token is read by the rule for its first character. -/
theorem fetch_token
    {c : Char}
    {more : List Char}
    (hBefore :
      BlockBefore size place kinds gap mark pending lexer)
    (hRest : place.rest = c :: more)
    (hBegins : BeginsToken place.rest)
    (hLevels :
      ∀ level ∈ place.levels.head?,
        (level : Int) ≤ place.column) :
    Lex.fetch lexer =
      (do
        Lex.dispatch c
        Lex.dropStale : Lex Unit)
        (settled lexer place gap mark pending) := by
  have hColumn := hBefore.column
  have hLength := hBefore.length
  have hUnindent :=
    hBefore.unindentTo_settled (by omega) hBefore.deeper
      hLevels
  have hUnmoved := hBefore.ready.cursor
  rw [if_neg (by simp [hRest])] at hColumn
  rw [hColumn] at hUnindent
  rw [List.length_append] at hLength
  have hCursor := hBefore.cursor
  rw [hRest] at hCursor hBegins hUnindent hUnmoved
  exact
    Lex.fetch_token hCursor (by omega) hBefore.spacing
      hBegins.starts (Or.inr (hBegins.percent c rfl))
      (Or.inr hBegins.ruled) hBefore.idle hUnindent hUnmoved

end BlockBefore

namespace BlockAt

variable {size : Nat}
variable {place after : BlockPlace}
variable {kinds kindsAfter : List TokenKind}
variable {lexer : Lexer}

/- Giving up the keys that reach too far succeeds. -/
theorem dropStale
    (hAt : BlockAt size place kinds lexer) :
    ∃ next,
      Lex.dropStale lexer = .ok ((), next) ∧
        BlockAt size place kinds next ∧
          next.cursor = lexer.cursor ∧
            next.tokens = lexer.tokens := by
  rcases hAt with ⟨gap, mark, pending, hBefore⟩
  rcases hBefore.keys with ⟨key, hKeys, hIdle⟩
  refine
    ⟨_, Lex.dropStale_keys ?_,
      ⟨gap, mark, pending, hBefore.fresh _⟩, rfl, rfl⟩
  intro waiting hMem hRequired
  rw [hKeys, List.mem_singleton] at hMem
  rw [(hIdle waiting hMem.symm).1] at hRequired
  cases hRequired

/- What comes last does not end the stream. -/
theorem running
    (hAt : BlockAt size place kinds lexer) :
    ∀ token ∈ lexer.tokens.head?, token.kind ≠ .streamEnd := by
  rcases hAt with ⟨gap, mark, pending, hBefore⟩
  intro token hMem hEnd
  apply hBefore.running
  rw [← hBefore.tokens, ← hEnd, List.map_reverse]
  apply List.mem_append_left
  rw [List.mem_reverse]
  exact List.mem_map_of_mem (List.mem_of_mem_head? hMem)

/- A token is fetched when its rule reads it. -/
theorem step
    {c : Char}
    {more : List Char}
    (hAt : BlockAt size place kinds lexer)
    (hRest : place.rest = c :: more)
    (hBegins : BeginsToken (c :: more))
    (hLevels :
      ∀ level ∈ place.levels.head?,
        (level : Int) ≤ place.column)
    (hRule :
      ∀ ready mark,
        (mark.column : Int) = place.column →
          BlockReady size (c :: more) mark kinds place.levels
              place.allowed ready →
            ∃ done,
              Lex.dispatch c ready = .ok ((), done) ∧
                BlockAt size after kindsAfter done ∧
                  done.cursor.rest.length ≤ more.length) :
    ∃ next,
      Fetches lexer next ∧
        BlockAt size after kindsAfter next := by
  rcases hAt with ⟨gap, mark, pending, hBefore⟩
  have hReady := hBefore.ready
  have hColumn := hBefore.column
  rw [if_neg (by simp [hRest])] at hColumn
  rw [hRest] at hReady
  rcases hRule _ _ hColumn.symm hReady with
    ⟨done, hRun, hDone, hLess⟩
  rcases hDone.dropStale with
    ⟨next, hDrop, hNext, hCursor, hTokens⟩
  have hFetch : Lex.fetch lexer = .ok ((), next) := by
    rw [hBefore.fetch_token hRest (hRest ▸ hBegins) hLevels,
      bind_ok hRun]
    exact hDrop
  refine ⟨next, .single hFetch ?_ ?_, hNext⟩
  · rw [hTokens]
    exact hDone.running
  · rw [hCursor, hBefore.cursor, hRest]
    simp only [Cursor.on, List.length_append,
      List.length_cons]
    omega

end BlockAt

end Yaml

end Transclusion

------------------------------------------------------------
-- Rules
------------------------------------------------------------

namespace Transclusion

namespace Yaml

namespace BlockReady

variable {size : Nat}
variable {text rest gap more : List Char}
variable {mark : Mark}
variable {kinds starts : List TokenKind}
variable {levels levelsAfter : List Nat}
variable {allowed allowedAfter : Bool}
variable {ready : Lexer}
variable {kind : TokenKind}

/- The lexer is in no flow collection. -/
theorem inFlow
    (hReady :
      BlockReady size text mark kinds levels allowed ready) :
    ready.inFlow = false := by
  unfold Lexer.inFlow
  rw [hReady.keys]

/- Behind a gap comes the place of the next token. -/
theorem behindGap
    {column : Int}
    (gap : List Char)
    (hReady :
      BlockReady size (gap ++ rest) mark kinds levels allowed
        ready)
    (hGap : ∀ c ∈ gap, isSpacing c = true)
    (hColumn :
      column =
        if rest = [] then -1 else ((mark.after gap).column : Int))
    (hAllowed :
      allowedAfter = true →
        (allowed || gap.any isBreak) = true) :
    BlockAt size ⟨rest, column, levels, allowedAfter⟩ kinds
      ready := by
  refine
    ⟨gap, mark, [], hReady.cursor, hReady.length, hGap, hColumn,
      fun hAfter => ?_, ?_, hReady.count, hReady.stack,
      List.forall_mem_nil _, ⟨none, hReady.keys, ?_⟩,
      hReady.running⟩
  · rw [Bool.or_eq_true_iff]
    exact
      (Bool.or_eq_true_iff.mp (hAllowed hAfter)).imp_left
        hReady.allowed
  · rw [hReady.tokens]
    exact List.append_nil kinds
  · intro waiting hMem
    cases hMem

/- A key is allowed or not. -/
theorem withAllowed
    (hReady :
      BlockReady size text mark kinds levels allowed ready)
    (allowedAfter : Bool) :
    BlockReady size text mark kinds levels allowedAfter
      { ready with keyAllowed := allowedAfter } :=
  { hReady with allowed := id }

/- No key is given up. -/
theorem dropKey
    (hReady :
      BlockReady size text mark kinds levels allowed ready) :
    Lex.dropKey ready = .ok ((), ready) :=
  Lex.dropKey_none hReady.keys

/- A token without characters is added. -/
theorem withStart
    (hReady :
      BlockReady size text mark kinds levels allowed ready)
    (hKind : kind ≠ .streamEnd)
    (column : Nat) :
    BlockReady size text mark (kinds ++ [kind])
      (column :: levels) allowed
      (Lexer.insert
        { ready with
          indent := column
          indents := ready.indent :: ready.indents }
        ready.count ⟨kind, mark, mark⟩) := by
  have hInsert :
      Lexer.insert
          { ready with
            indent := column
            indents := ready.indent :: ready.indents }
          ready.count ⟨kind, mark, mark⟩ =
        { ready with
          tokens := ⟨kind, mark, mark⟩ :: ready.tokens
          count := ready.count + 1
          indent := column
          indents := ready.indent :: ready.indents } := by
    unfold Lexer.insert
    simp
  rw [hInsert]
  refine
    { hReady with
      tokens := ?_, count := ?_, stack := ?_, running := ?_ }
  · rw [← hReady.tokens, List.reverse_cons, List.map_append]
    rfl
  · rw [hReady.count]
    rfl
  · exact congrArg (_ :: ·) hReady.stack
  · simp only [List.mem_append, List.mem_singleton, not_or]
    exact ⟨hReady.running, hKind.symm⟩

/- A token opens a collection, or one is open there. -/
theorem indentHere
    (hReady :
      BlockReady size text mark kinds levels true ready)
    (hKind : kind ≠ .streamEnd)
    (hOpens : Opens kind mark.column levels starts levelsAfter)
    (problem : Problem) :
    ∃ done,
      Lex.indentHere kind problem ready = .ok ((), done) ∧
        BlockReady size text mark (kinds ++ starts) levelsAfter
          true done := by
  have hMark : ready.cursor.mark = mark := by
    rw [hReady.cursor]
    rfl
  have hHere :
      Lex.indentHere kind problem ready =
        Lex.indentTo mark.column ready.count kind mark
          ready := by
    rw [Lex.indentHere, bind_ok get_ok, hReady.inFlow,
      hReady.allowed rfl, hMark]
    rfl
  rw [hHere, Lex.indentTo, bind_ok get_ok, hReady.inFlow]
  cases hOpens with
  | first hDeeper =>
      have hLess :=
        Lex.indent_lt_of_stack hReady.stack hDeeper
      refine ⟨_, ?_, hReady.withStart hKind mark.column⟩
      rw [if_pos (by simpa using hLess)]
      rfl
  | next =>
      have hEqual : ready.indent = (mark.column : Int) :=
        Lex.indent_of_stack hReady.stack
      refine ⟨ready, ?_, ?_⟩
      · rw [if_neg (by simp [hEqual])]
        rfl
      · rw [List.append_nil]
        exact hReady

/- A token of one character is added. -/
theorem addSkipping
    {c : Char}
    (hReady :
      BlockReady size (c :: more) mark kinds levels allowed
        ready)
    (hLine : isBreak c = false)
    (hKind : kind ≠ .streamEnd) :
    ∃ done,
      Lex.addSkipping kind 1 ready = .ok ((), done) ∧
        BlockReady size more (mark.step c) (kinds ++ [kind])
          levels allowed done := by
  have hLength := hReady.length
  rw [List.length_cons] at hLength
  refine
    ⟨_, Lex.addSkipping_one hReady.cursor hLine kind,
      { hReady with
        cursor := rfl, length := by omega
        tokens := ?_, count := ?_, running := ?_ }⟩
  · rw [← hReady.tokens, List.reverse_cons, List.map_append]
    rfl
  · rw [hReady.count]
    rfl
  · simp only [List.mem_append, List.mem_singleton, not_or]
    exact ⟨hReady.running, hKind.symm⟩

/- The dash of an entry. -/
theorem blockEntry
    (hReady :
      BlockReady size ('-' :: more) mark kinds levels true
        ready)
    (hOpens :
      Opens .blockSequenceStart mark.column levels starts
        levelsAfter) :
    ∃ done,
      Lex.blockEntry ready = .ok ((), done) ∧
        BlockReady size more (mark.step '-')
          (kinds ++ (starts ++ [.blockEntry])) levelsAfter true
          done := by
  rcases hReady.indentHere TokenKind.noConfusion hOpens
      .sequenceEntryMisplaced with
    ⟨opened, hOpen, hOpened⟩
  rcases (hOpened.withAllowed true).addSkipping rfl
      (show TokenKind.blockEntry ≠ .streamEnd from
        TokenKind.noConfusion) with
    ⟨done, hAdd, hDone⟩
  rw [List.append_assoc] at hDone
  refine ⟨done, ?_, hDone⟩
  rw [Lex.blockEntry, bind_ok hOpen, bind_ok hOpened.dropKey,
    bind_ok (Lex.allowKey_ok true)]
  exact hAdd

/- The question mark of a key. -/
theorem key
    (hReady :
      BlockReady size ('?' :: more) mark kinds levels true
        ready)
    (hOpens :
      Opens .blockMappingStart mark.column levels starts
        levelsAfter) :
    ∃ done,
      Lex.key ready = .ok ((), done) ∧
        BlockReady size more (mark.step '?')
          (kinds ++ (starts ++ [.key])) levelsAfter true
          done := by
  rcases hReady.indentHere TokenKind.noConfusion hOpens
      .keyMisplaced with
    ⟨opened, hOpen, hOpened⟩
  rcases (hOpened.withAllowed true).addSkipping rfl
      (show TokenKind.key ≠ .streamEnd from
        TokenKind.noConfusion) with
    ⟨done, hAdd, hDone⟩
  rw [List.append_assoc] at hDone
  refine ⟨done, ?_, hDone⟩
  rw [Lex.key, bind_ok hOpen, bind_ok hOpened.dropKey,
    bind_ok get_ok, hOpened.inFlow,
    bind_ok (Lex.allowKey_ok _)]
  exact hAdd

/- The colon behind a key that was marked. -/
theorem value
    (hReady :
      BlockReady size (':' :: more) mark kinds
        (mark.column :: levels) true ready) :
    ∃ done,
      Lex.value ready = .ok ((), done) ∧
        BlockReady size more (mark.step ':')
          (kinds ++ [.value]) (mark.column :: levels) true
          done := by
  rcases hReady.indentHere
      (show TokenKind.blockMappingStart ≠ .streamEnd from
        TokenKind.noConfusion)
      .next .valueMisplaced with
    ⟨opened, hOpen, hOpened⟩
  rw [List.append_nil] at hOpened
  rcases (hOpened.withAllowed true).addSkipping rfl
      (show TokenKind.value ≠ .streamEnd from
        TokenKind.noConfusion) with
    ⟨done, hAdd, hDone⟩
  refine ⟨done, ?_, hDone⟩
  rw [Lex.value, bind_ok get_ok, hReady.keys]
  simp only [List.head?_cons]
  rw [bind_ok hOpen, hReady.inFlow,
    bind_ok (Lex.allowKey_ok _)]
  exact hAdd

end BlockReady

end Yaml

end Transclusion
