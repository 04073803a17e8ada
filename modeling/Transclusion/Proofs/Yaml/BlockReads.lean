import Transclusion.Proofs.Yaml.BlockLexing
import Transclusion.Proofs.Yaml.Literal

/-
  The tokens of block collections.

  Key definitions include:
    * `Transclusion.Yaml.EndsLine`
    * `Transclusion.Yaml.BlockReads`

  Key theorems include:
    * `Transclusion.Yaml.BlockReads.plain`
    * `Transclusion.Yaml.BlockReads.literal`
    * `Transclusion.Yaml.BlockReads.empty`

  A scalar ends with its line.  What stands behind it is
  indented, or the text ends there.
-/

------------------------------------------------------------
-- Scalars
------------------------------------------------------------

namespace Transclusion

namespace Yaml

/- The innermost of the open collections, or none. -/
def levelOf
    (levels : List Nat) : Int :=
  (levels.head?.map Int.ofNat).getD (-1)

/- In a collection that is its indentation. -/
theorem toNat_levelOf
    (indent : Nat)
    (levels : List Nat) :
    (max (levelOf (indent :: levels)) 0).toNat = indent := by
  change (max (indent : Int) 0).toNat = indent
  omega

/- Whether a scalar without quotes begins a text. -/
structure BeginsPlain
    (text : List Char) : Prop where
  begins : BeginsToken text
  starts :
    ∀ c ∈ text.head?, Lex.startsPlain false c text[1]? = true
  dash : text.head? = some '-' → isGap text[1]? = false

/- It does not begin with a comment. -/
theorem BeginsPlain.ne_hash
    {first : Char}
    {more : List Char}
    (hBegins : BeginsPlain (first :: more)) :
    first ≠ '#' :=
  (hBegins.begins.starts first rfl).2.1

/- A collection opens within the innermost one. -/
theorem Opens.levelOf_le
    {kind : TokenKind}
    {column : Nat}
    {levels levelsAfter : List Nat}
    {starts : List TokenKind}
    (hOpens : Opens kind column levels starts levelsAfter) :
    levelOf levels ≤ (column : Int) := by
  have hInside := hOpens.levels_le
  cases levels with
  | nil =>
      exact
        Int.le_trans (show -1 ≤ 0 by decide)
          (Int.natCast_nonneg column)
  | cons level levels =>
      exact Int.ofNat_le.mpr (hInside level rfl)

/- A quote is a token. -/
theorem beginsToken_quote
    (single : Bool)
    (rest : List Char) :
    BeginsToken (quoteChar single :: rest) := by
  apply beginsToken_indicator
  cases single <;> decide

/- A dash in front of a space is a token. -/
theorem beginsToken_dash
    {rest : List Char} :
    BeginsToken ('-' :: ' ' :: rest) := by
  apply beginsToken_cons rfl (by decide) (by decide) (by decide)
  rintro (hEq | hEq)
  · cases hEq
  · cases hEq

/- The indentation only makes a text longer. -/
theorem length_le_literal
    (level : Nat)
    (text : List Char) :
    text.length ≤ (literal level text).length := by
  have hLines (broken : Bool) :
      text.length ≤ (indentLines level broken text).length := by
    induction text generalizing broken with
    | nil => exact Nat.le_refl _
    | cons c rest ih =>
        have hMore := ih true
        have hLine := ih false
        rw [indentLines]
        split
        · simp only [List.length_cons]
          omega
        · simp only [List.length_append, List.length_cons]
          omega
  have hText := hLines true
  unfold literal
  simp only [List.length_append, List.length_cons]
  omega

/- A literal block begins with a bar. -/
theorem exists_literal
    (level : Nat)
    (text : List Char) :
    ∃ more,
      Yaml.literal level text ++ literalEnd text =
        '|' :: more :=
  ⟨_, rfl⟩

/-
  What stands behind a line: an indentation in front of a
  token at a column, or the end of the text.
-/
structure EndsLine
    (count : Nat)
    (rest : List Char)
    (column : Int) : Prop where
  column : column = if rest = [] then -1 else (count : Int)
  starts : StartsToken rest
  last : rest = [] → count = 0

/- A line break and an indentation. -/
def lineGap
    (count : Nat) : List Char :=
  '\n' :: List.replicate count ' '

/- A line break and an indentation are a gap. -/
theorem isSpacing_of_mem_lineGap
    (count : Nat) :
    ∀ c ∈ lineGap count, isSpacing c = true := by
  unfold lineGap
  rw [List.forall_mem_cons]
  exact
    ⟨rfl, List.forall_mem_replicate.mpr (Or.inr rfl)⟩

/- Behind them the column is that of the indentation. -/
theorem column_after_lineGap
    (mark : Mark)
    (count : Nat) :
    (mark.after (lineGap count)).column = count := by
  have hStep : (mark.step '\n').column = 0 := rfl
  unfold lineGap
  rw [Mark.after_cons, Mark.column_after_spaces, hStep,
    Nat.zero_add]

/- Behind them another line has begun. -/
theorem line_after_lineGap
    (mark : Mark)
    (count : Nat) :
    mark.line < (mark.after (lineGap count)).line := by
  have hStep : (mark.step '\n').line = mark.line + 1 := rfl
  have hMore :=
    Mark.line_le_after (mark.step '\n')
      (List.replicate count ' ')
  unfold lineGap
  rw [Mark.after_cons]
  omega

namespace BlockReady

variable {size count : Nat}
variable {text rest gap : List Char}
variable {mark behind : Mark}
variable {kinds : List TokenKind}
variable {levels : List Nat}
variable {allowed allowedAfter : Bool}
variable {ready : Lexer}
variable {column : Int}

/- What is kept may begin a key here, but need not. -/
theorem of_mem_savedKeys
    (hReady :
      BlockReady size text mark kinds levels allowed ready)
    (hInside : levelOf levels < (mark.column : Int))
    {key : PendingKey}
    (hKey : some key ∈ ready.savedKeys) :
    key.required = false ∧ key.mark = mark := by
  have hIndent := Lex.indent_of_stack hReady.stack
  have hMark : ready.cursor.mark = mark := by
    rw [hReady.cursor]
    rfl
  unfold Lexer.savedKeys at hKey
  split at hKey
  · rw [hReady.keys, List.tail_cons, List.mem_singleton,
      Option.some.injEq] at hKey
    rw [hKey]
    refine ⟨?_, hMark⟩
    rw [hMark, Bool.and_eq_false_iff, beq_eq_false_iff_ne,
      hIndent]
    right
    unfold levelOf at hInside
    omega
  · rw [hReady.keys, List.mem_singleton] at hKey
    cases hKey

/- No more than one key is remembered. -/
theorem exists_savedKeys
    (hReady :
      BlockReady size text mark kinds levels allowed ready) :
    ∃ key, ready.savedKeys = [key] := by
  unfold Lexer.savedKeys
  rw [hReady.keys]
  split
  · exact ⟨_, rfl⟩
  · exact ⟨_, rfl⟩

/- Some tokens are read that cannot be a key. -/
theorem withTokens
    (hReady :
      BlockReady size text mark kinds levels allowed ready)
    {added : List Token}
    (hKinds : ∀ token ∈ added, token.kind ≠ .streamEnd)
    (hInside : levelOf levels < (mark.column : Int))
    (hLength : (gap ++ rest).length ≤ size)
    (hGap : ∀ c ∈ gap, isSpacing c = true)
    (hColumn :
      column =
        if rest = [] then -1
        else ((behind.after gap).column : Int))
    (hLine : mark.line < (behind.after gap).line)
    (keyAllowed : Bool)
    (hAllowed :
      allowedAfter = true →
        (keyAllowed || gap.any isBreak) = true) :
    BlockBefore size ⟨rest, column, levels, allowedAfter⟩
      (kinds ++ added.reverse.map Token.kind) gap behind []
      { ready with
        cursor := Cursor.on (gap ++ rest) size behind
        tokens := added ++ ready.tokens
        count := ready.count + added.length
        keys := ready.savedKeys
        keyAllowed := keyAllowed } := by
  rcases hReady.exists_savedKeys with ⟨key, hKey⟩
  refine
    ⟨rfl, hLength, hGap, hColumn, hAllowed, ?_, ?_,
      hReady.stack, List.forall_mem_nil _, ⟨key, hKey, ?_⟩, ?_⟩
  · rw [List.reverse_append, List.map_append, hReady.tokens]
    exact List.append_nil _
  · simp only
    rw [List.length_append, hReady.count, Nat.add_comm]
  · intro waiting hMem
    rw [Option.mem_def] at hMem
    rw [hMem] at hKey
    rcases hReady.of_mem_savedKeys hInside
        (hKey ▸ List.mem_singleton_self _) with
      ⟨hRequired, hMark⟩
    refine ⟨hRequired, ?_⟩
    unfold PendingKey.isStale
    rw [hMark]
    simp only [Bool.or_eq_true_iff, decide_eq_true_eq]
    exact Or.inl hLine
  · rw [List.mem_append, not_or]
    refine ⟨hReady.running, fun hMem => ?_⟩
    rcases List.mem_map.mp hMem with ⟨token, hToken, hEnd⟩
    exact hKinds token (List.mem_reverse.mp hToken) hEnd

/- A scalar is read that cannot be a key. -/
theorem withScalar
    (hReady :
      BlockReady size text mark kinds levels allowed ready)
    (token : Token)
    (hKind : token.kind ≠ .streamEnd)
    (hInside : levelOf levels < (mark.column : Int))
    (hLength : (gap ++ rest).length ≤ size)
    (hGap : ∀ c ∈ gap, isSpacing c = true)
    (hColumn :
      column =
        if rest = [] then -1
        else ((behind.after gap).column : Int))
    (hLine : mark.line < (behind.after gap).line)
    (keyAllowed : Bool)
    (hAllowed :
      allowedAfter = true →
        (keyAllowed || gap.any isBreak) = true) :
    BlockAt size ⟨rest, column, levels, allowedAfter⟩
      (kinds ++ [token.kind])
      { ready with
        cursor := Cursor.on (gap ++ rest) size behind
        tokens := token :: ready.tokens
        count := ready.count + 1
        keys := ready.savedKeys
        keyAllowed := keyAllowed } :=
  ⟨gap, behind, [],
    hReady.withTokens (List.forall_mem_singleton.mpr hKind)
      hInside hLength hGap hColumn hLine keyAllowed hAllowed⟩

end BlockReady

end Yaml

end Transclusion

------------------------------------------------------------
-- Readings
------------------------------------------------------------

namespace Transclusion

namespace Yaml

/- From one place to another some tokens are read. -/
@[reducible]
def BlockReads
    (size : Nat) :
    BlockPlace → List TokenKind → BlockPlace → Prop :=
  Lexes (BlockAt size)

namespace BlockReady

variable {size : Nat}
variable {text more : List Char}
variable {mark behind : Mark}
variable {kinds : List TokenKind}
variable {levels : List Nat}
variable {allowed : Bool}
variable {ready : Lexer}
variable {token : Token}

/- What may begin a key is remembered. -/
theorem saveKey
    (hReady :
      BlockReady size text mark kinds levels allowed ready) :
    Lex.saveKey ready =
      .ok ((), { ready with keys := ready.savedKeys }) :=
  Lex.saveKey_keys hReady.keys fun _ hMem => by cases hMem

/- A scalar in quotes is read. -/
theorem keyStart
    (hReady :
      BlockReady size text mark kinds levels allowed ready)
    {reading : Scan Token}
    (hRead :
      reading ready.cursor =
        .ok (token, Cursor.on more size behind)) :
    Lex.keyStart reading ready =
      .ok ((),
        { ready with
          cursor := Cursor.on more size behind
          tokens := token :: ready.tokens
          count := ready.count + 1
          keys := ready.savedKeys
          keyAllowed := false }) := by
  rw [Lex.keyStart, bind_ok hReady.saveKey,
    bind_ok (Lex.allowKey_ok false),
    bind_ok (Lex.scan_ok (by exact hRead)), Lex.add_ok]

/- A scalar without quotes is read. -/
theorem plainScalar
    (hReady :
      BlockReady size text mark kinds levels allowed ready)
    {broken : Bool}
    (hRead :
      Scan.plainScalar (levelOf levels) false ready.cursor =
        .ok ((token, broken), Cursor.on more size behind)) :
    Lex.plainScalar ready =
      .ok ((),
        { ready with
          cursor := Cursor.on more size behind
          tokens := token :: ready.tokens
          count := ready.count + 1
          keys := ready.savedKeys
          keyAllowed := broken }) := by
  have hIndent : ready.indent = levelOf levels :=
    Lex.indent_of_stack hReady.stack
  have hInFlow :
      Lexer.inFlow
          { ready with
            keys := ready.savedKeys
            keyAllowed := false } =
        false := by
    rcases hReady.exists_savedKeys with ⟨key, hKeys⟩
    unfold Lexer.inFlow
    simp only [hKeys]
  rw [← hIndent] at hRead
  rw [Lex.plainScalar, bind_ok hReady.saveKey,
    bind_ok (Lex.allowKey_ok false), bind_ok get_ok, hInFlow,
    bind_ok (Lex.scan_ok (by exact hRead))]
  cases broken <;> rfl

/- What begins with a quote is read as a scalar. -/
theorem dispatch_quote
    (single : Bool)
    (hReady :
      BlockReady size (quoteChar single :: text) mark kinds
        levels allowed ready) :
    Lex.dispatch (quoteChar single) ready =
      Lex.keyStart (Scan.quotedScalar single) ready := by
  rw [Lex.dispatch, bind_ok get_ok,
    bind_ok (Lex.scan_peekAt_one hReady.cursor)]
  cases single <;> rfl

/- What begins without quotes is read as a scalar. -/
theorem dispatch_plain
    {first : Char}
    (hReady :
      BlockReady size (first :: text) mark kinds levels allowed
        ready)
    (hBegins : BeginsPlain (first :: text)) :
    Lex.dispatch first ready = Lex.plainScalar ready := by
  rw [Lex.dispatch_plain hReady.cursor]
  · rw [hReady.inFlow, List.head?_eq_getElem?]
    exact hBegins.starts first rfl
  · rintro rfl
    rw [List.head?_eq_getElem?]
    exact hBegins.dash rfl

/- A literal block is read. -/
theorem blockScalar
    (hReady :
      BlockReady size text mark kinds levels allowed ready)
    (hRead :
      Scan.blockScalar (levelOf levels) false ready.cursor =
        .ok (token, Cursor.on more size behind))
    (hKind : token.kind ≠ .streamEnd)
    (hLength : more.length ≤ size) :
    ∃ done,
      Lex.blockScalar false ready = .ok ((), done) ∧
        BlockReady size more behind (kinds ++ [token.kind])
          levels true done := by
  have hIndent : ready.indent = levelOf levels :=
    Lex.indent_of_stack hReady.stack
  rw [← hIndent] at hRead
  refine
    ⟨{ ready with
        cursor := Cursor.on more size behind
        tokens := token :: ready.tokens
        count := ready.count + 1
        keyAllowed := true },
      ?_,
      { hReady with
        allowed := fun _ => rfl,
        cursor := rfl, length := hLength, tokens := ?_,
        count := ?_, running := ?_ }⟩
  · rw [Lex.blockScalar, bind_ok hReady.dropKey,
      bind_ok (Lex.allowKey_ok true), bind_ok get_ok,
      bind_ok (Lex.scan_ok (by exact hRead)), Lex.add_ok]
  · rw [← hReady.tokens, List.reverse_cons, List.map_append]
    rfl
  · rw [hReady.count]
    rfl
  · simp only [List.mem_append, List.mem_singleton, not_or]
    exact ⟨hReady.running, hKind.symm⟩

end BlockReady

namespace BlockReads

variable {size count : Nat}
variable {produced starts : List TokenKind}
variable {rest text written : List Char}
variable {levels levelsAfter : List Nat}
variable {column columnAfter : Int}
variable {level : Nat}
variable {allowed : Bool}

/-
  In front of a token that is indented less a collection
  ends.
-/
theorem close
    (hLess : column < (level : Int)) :
    BlockReads size ⟨rest, column, level :: levels, allowed⟩
      [.blockEnd] ⟨rest, column, levels, allowed⟩ := by
  intro kinds lexer hAt
  rcases hAt with ⟨gap, mark, pending, hBefore⟩
  refine
    ⟨lexer, .refl lexer, gap, mark, pending ++ [level],
      { hBefore with
        tokens := ?_, stack := ?_, deeper := ?_, running := ?_ }⟩
  · rw [← hBefore.tokens, List.length_append,
      List.length_singleton, List.replicate_succ',
      List.append_assoc]
  · rw [List.append_assoc]
    exact hBefore.stack
  · rw [List.forall_mem_append]
    exact
      ⟨hBefore.deeper, List.forall_mem_singleton.mpr hLess⟩
  · simp only [List.mem_append, List.mem_singleton, not_or]
    exact ⟨hBefore.running, TokenKind.noConfusion⟩

/- The innermost level does not lie behind a column. -/
theorem levels_le
    (hInside : levelOf levels ≤ column) :
    ∀ level ∈ levels.head?, (level : Int) ≤ column := by
  intro level hMem
  unfold levelOf at hInside
  rw [Option.mem_def] at hMem
  rw [hMem] at hInside
  exact hInside

/- A scalar in quotes. -/
theorem quoted
    (single : Bool)
    (hText : QuotedText single text written)
    (hInside : levelOf levels < column)
    (hEnd : EndsLine count rest columnAfter) :
    BlockReads size
      ⟨quoteChar single ::
          (written ++
            quoteChar single :: (lineGap count ++ rest)),
        column, levels, allowed⟩
      [.scalar text
        (if single then .singleQuoted else .doubleQuoted)]
      ⟨rest, columnAfter, levels, true⟩ := by
  intro kinds lexer hAt
  apply
    hAt.step rfl (beginsToken_quote single _)
      (levels_le (Int.le_of_lt hInside))
  intro ready mark hColumn hReady
  have hLength := hReady.length
  simp only [List.length_cons, List.length_append] at hLength
  have hAfter :
      single = true →
        (lineGap count ++ rest).head? ≠ some '\'' := by
    intro _ hEq
    cases hEq
  let behind :=
    mark.after
      (quoteChar single :: (written ++ [quoteChar single]))
  have hRead :=
    (congrArg (Scan.quotedScalar single) hReady.cursor).trans
      (Scan.quotedScalar_text hText hAfter (by omega))
  have hLine : mark.line < (behind.after (lineGap count)).line :=
    Nat.lt_of_le_of_lt (mark.line_le_after _)
      (line_after_lineGap behind count)
  have hRest : (lineGap count ++ rest).length ≤ size := by
    rw [List.length_append]
    omega
  have hColumnAfter := hEnd.column
  rw [← column_after_lineGap behind count] at hColumnAfter
  refine
    ⟨_, ?_,
      hReady.withScalar ⟨.scalar text _, mark, behind⟩
        TokenKind.noConfusion (hColumn ▸ hInside) hRest
        (isSpacing_of_mem_lineGap count) hColumnAfter hLine
        false (fun _ => rfl),
      ?_⟩
  · rw [hReady.dispatch_quote single]
    exact hReady.keyStart hRead
  · simp only [Cursor.on, List.length_append,
      List.length_cons]
    omega

/- A scalar without quotes. -/
theorem plain
    (hText : PlainText false text)
    (hBegins : BeginsPlain (text ++ (lineGap count ++ rest)))
    (hInside : levelOf levels < column)
    (hEnd : EndsLine count rest columnAfter)
    (hOuter : columnAfter ≤ levelOf levels) :
    BlockReads size
      ⟨text ++ (lineGap count ++ rest), column, levels,
        allowed⟩
      [.scalar text .plain]
      ⟨rest, columnAfter, levels, true⟩ := by
  intro kinds lexer hAt
  rcases hText.exists_cons with ⟨first, more, hFirst, hNone⟩
  have hWhole :
      text ++ (lineGap count ++ rest) =
        first :: (more ++ (lineGap count ++ rest)) := by
    rw [hFirst]
    rfl
  rw [hWhole] at hBegins
  apply
    hAt.step hWhole hBegins.begins
      (levels_le (Int.le_of_lt hInside))
  intro ready mark hColumn hReady
  have hDispatch := hReady.dispatch_plain hBegins
  rw [← hWhole] at hReady hBegins
  have hLength := hReady.length
  simp only [List.length_append] at hLength
  let behind := (mark.after text).after (lineGap count)
  have hTail : ∀ c ∈ rest.head?, isGap (some c) = false :=
    fun c hMem => (hEnd.starts c hMem).1
  have hStop :
      (lineGap count ≠ [] ∧ false = false ∧
          behind.column < (levelOf levels + 1).toNat) ∨
        EndsPlain false rest := by
    have hAfter := hEnd.column
    cases rest with
    | nil => exact Or.inr trivial
    | cons c others =>
        rw [if_neg (List.cons_ne_nil c others)] at hAfter
        refine Or.inl ⟨List.cons_ne_nil _ _, rfl, ?_⟩
        unfold behind
        rw [column_after_lineGap]
        omega
  have hComment : text.head? ≠ some '#' := by
    rw [hWhole] at hBegins
    rw [hFirst]
    exact fun hEq => hBegins.ne_hash (Option.some.inj hEq)
  have hParent : levelOf levels ≤ (mark.column : Int) := by
    rw [hColumn]
    exact Int.le_of_lt hInside
  have hRead :=
    (congrArg (Scan.plainScalar (levelOf levels) false)
      hReady.cursor).trans
      (Scan.plainScalar_text (levelOf levels) hText
        (Or.inr hBegins.begins.ruled) hComment
        (isSpacing_of_mem_lineGap count) hTail hStop
        (fun _ => hParent) (by omega))
  have hLine : mark.line < (behind.after []).line :=
    Nat.lt_of_le_of_lt (mark.line_le_after text)
      (line_after_lineGap _ count)
  have hColumnAfter := hEnd.column
  rw [← column_after_lineGap (mark.after text) count]
    at hColumnAfter
  have hRest : ([] ++ rest).length ≤ size := by
    rw [List.nil_append]
    omega
  refine
    ⟨_, ?_,
      hReady.withScalar
        ⟨.scalar text .plain, mark, mark.after text⟩
        TokenKind.noConfusion (hColumn ▸ hInside) hRest
        (List.forall_mem_nil _) hColumnAfter hLine true
        (fun _ => rfl),
      ?_⟩
  · rw [hDispatch]
    exact hReady.plainScalar hRead
  · simp only [Cursor.on, List.length_append,
      List.nil_append]
    omega

/- A literal block. -/
theorem literal
    (hChars : ∀ c ∈ text, IsLiteralChar c)
    (hSome : text ≠ [])
    (hInside : levelOf levels < column)
    (hEnd : EndsLine count rest columnAfter)
    (hOuter : columnAfter ≤ levelOf levels)
    (hLevel : level = (max (levelOf levels) 0).toNat + 2) :
    BlockReads size
      ⟨Yaml.literal level text ++ literalEnd text ++
          (List.replicate count ' ' ++ rest),
        column, levels, allowed⟩
      [.scalar text .literal]
      ⟨rest, columnAfter, levels, true⟩ := by
  intro kinds lexer hAt
  rcases exists_literal level text with ⟨more, hWhole⟩
  have hText :
      Yaml.literal level text ++ literalEnd text ++
          (List.replicate count ' ' ++ rest) =
        '|' :: (more ++ (List.replicate count ' ' ++ rest)) := by
    rw [hWhole]
    rfl
  have hPlace := hEnd.column
  have hLess : count < level := by
    by_cases hRest : rest = []
    · rw [hEnd.last hRest]
      omega
    · rw [if_neg hRest] at hPlace
      omega
  have hIndents : Scan.Indents level count rest := by
    have hSpace : rest.head? ≠ some ' ' := by
      intro hEq
      cases (hEnd.starts ' ' hEq).1
    refine
      ⟨fun _ => hSpace, fun _ => Nat.le_of_lt hLess,
        fun _ _ => hSpace, ?_⟩
    intro c hMem
    have hGap := (hEnd.starts c hMem).1
    refine ⟨?_, (Bool.or_eq_false_iff.mp hGap).2⟩
    rintro rfl
    cases hGap
  apply
    hAt.step hText (beginsToken_indicator (by decide) _)
      (levels_le (Int.le_of_lt hInside))
  intro ready mark hColumn hReady
  rw [← hText] at hReady
  have hLength := hReady.length
  have hLonger := length_le_literal level text
  have hSize : (text ++ literalEnd text).length ≤ size := by
    simp only [List.length_append] at hLength ⊢
    omega
  have hBlock :
      ∃ stop behind,
        Scan.blockScalar (levelOf levels) false ready.cursor =
            .ok (⟨.scalar text .literal, mark, stop⟩,
              Cursor.on rest size behind) ∧
          behind.column = count := by
    rw [hReady.cursor]
    exact
      Scan.exists_blockScalar hChars hSome hIndents hLess
        hLevel hSize
  rcases hBlock with ⟨stop, behind, hRead, hBehind⟩
  rcases hReady.blockScalar hRead
      (show TokenKind.scalar text .literal ≠ .streamEnd from
        TokenKind.noConfusion)
      (by simp only [List.length_append] at hLength; omega) with
    ⟨done, hRun, hDone⟩
  refine ⟨done, ?_, ?_, ?_⟩
  · rw [Lex.dispatch, bind_ok get_ok,
      bind_ok (Lex.scan_peekAt_one (hText ▸ hReady.cursor)),
      hReady.inFlow]
    exact hRun
  · apply hDone.behindGap [] (List.forall_mem_nil _)
    · rw [hPlace, Mark.after_nil, hBehind]
    · exact fun _ => rfl
  · rw [hDone.cursor]
    simp only [Cursor.on, List.length_append]
    omega

/- A mark of one character, and a space behind it. -/
theorem ofMark
    {c : Char}
    {indent : Nat}
    (hBegins : BeginsToken (c :: ' ' :: rest))
    (hLine : isBreak c = false)
    (hRest : rest ≠ [])
    (hLevels : ∀ level ∈ levels.head?, level ≤ indent)
    (hRule :
      ∀ kinds ready mark,
        mark.column = indent →
          BlockReady size (c :: ' ' :: rest) mark kinds levels
              true ready →
            ∃ done,
              Lex.dispatch c ready = .ok ((), done) ∧
                BlockReady size (' ' :: rest) (mark.step c)
                  (kinds ++ produced) levelsAfter true done) :
    BlockReads size
      ⟨c :: ' ' :: rest, (indent : Int), levels, true⟩ produced
      ⟨rest, ((indent + 2 : Nat) : Int), levelsAfter,
        true⟩ := by
  intro kinds lexer hAt
  apply hAt.step rfl hBegins
  · intro level hMem
    exact Int.ofNat_le.mpr (hLevels level hMem)
  intro ready mark hColumn hReady
  have hIndent : mark.column = indent := Int.ofNat.inj hColumn
  rcases hRule kinds ready mark hIndent hReady with
    ⟨done, hRun, hDone⟩
  have hStep (d : Char) (hLine : isBreak d = false)
      (mark : Mark) : (mark.step d).column = mark.column + 1 := by
    unfold Mark.step
    rw [if_neg (by simp [hLine])]
  have hBehind :
      (((mark.step c).after [' ']).column : Int) =
        ((indent + 2 : Nat) : Int) := by
    rw [Mark.after_cons, Mark.after_nil, hStep ' ' rfl,
      hStep c hLine, hIndent]
  refine ⟨done, hRun, ?_, ?_⟩
  · apply hDone.behindGap [' ']
    · exact List.forall_mem_singleton.mpr rfl
    · rw [if_neg hRest, hBehind]
    · exact fun _ => rfl
  · rw [hDone.cursor]
    exact Nat.le_refl _

/- The dash of an entry. -/
theorem entry
    {indent : Nat}
    (hOpens :
      Opens .blockSequenceStart indent levels starts
        levelsAfter)
    (hRest : rest ≠ []) :
    BlockReads size
      ⟨'-' :: ' ' :: rest, (indent : Int), levels, true⟩
      (starts ++ [.blockEntry])
      ⟨rest, ((indent + 2 : Nat) : Int), levelsAfter,
        true⟩ := by
  apply ofMark beginsToken_dash rfl hRest hOpens.levels_le
  rintro kinds ready mark rfl hReady
  rcases hReady.blockEntry hOpens with ⟨done, hRun, hDone⟩
  refine ⟨done, ?_, hDone⟩
  rw [Lex.dispatch, bind_ok get_ok,
    bind_ok (Lex.scan_peekAt_one hReady.cursor)]
  exact hRun

/- The question mark of a key. -/
theorem keyMark
    {indent : Nat}
    (hOpens :
      Opens .blockMappingStart indent levels starts
        levelsAfter)
    (hRest : rest ≠ []) :
    BlockReads size
      ⟨'?' :: ' ' :: rest, (indent : Int), levels, true⟩
      (starts ++ [.key])
      ⟨rest, ((indent + 2 : Nat) : Int), levelsAfter,
        true⟩ := by
  apply
    ofMark (beginsToken_indicator (by decide) _) rfl hRest
      hOpens.levels_le
  rintro kinds ready mark rfl hReady
  rcases hReady.key hOpens with ⟨done, hRun, hDone⟩
  refine ⟨done, ?_, hDone⟩
  rw [Lex.dispatch, bind_ok get_ok,
    bind_ok (Lex.scan_peekAt_one hReady.cursor), hReady.inFlow]
  exact hRun

/- The colon behind a key that was marked. -/
theorem valueMark
    {indent : Nat}
    (hRest : rest ≠ []) :
    BlockReads size
      ⟨':' :: ' ' :: rest, (indent : Int), indent :: levels,
        true⟩
      [.value]
      ⟨rest, ((indent + 2 : Nat) : Int), indent :: levels,
        true⟩ := by
  apply
    ofMark (beginsToken_indicator (by decide) _) rfl hRest
  · intro level hMem
    cases hMem
    exact Nat.le_refl _
  rintro kinds ready mark rfl hReady
  rcases hReady.value with ⟨done, hRun, hDone⟩
  refine ⟨done, ?_, hDone⟩
  rw [Lex.dispatch, bind_ok get_ok,
    bind_ok (Lex.scan_peekAt_one hReady.cursor), hReady.inFlow]
  exact hRun

end BlockReads

end Yaml

end Transclusion

------------------------------------------------------------
-- Empty Collections
------------------------------------------------------------

namespace Transclusion

namespace Yaml

namespace Lex

variable {lexer : Lexer}
variable {c : Char}
variable {rest : List Char}
variable {size : Nat}
variable {mark : Mark}
variable {kind : TokenKind}
variable {saved : Option PendingKey}

/- A token that stands right here is read by its rule. -/
theorem fetch_here
    (hCursor : lexer.cursor = Cursor.on (c :: rest) size mark)
    (hBegins : BeginsToken (c :: rest))
    (hKeys :
      ∀ key, some key ∈ lexer.keys →
        key.required = true → key.isStale mark = false)
    (hLevel :
      unindentTo mark.column
          { lexer with
            keys := Lexer.freshKeys mark lexer.keys } =
        .ok ((),
          { lexer with
            keys := Lexer.freshKeys mark lexer.keys })) :
    fetch lexer =
      (do
        dispatch c
        dropStale : Lex Unit)
        { lexer with
          keys := Lexer.freshKeys mark lexer.keys } := by
  have hHere :
      lexer.atToken (c :: rest) [] =
        { lexer with
          keys := Lexer.freshKeys mark lexer.keys } := by
    unfold Lexer.atToken
    rw [hCursor]
    simp only [Cursor.on, Mark.after_nil, List.any_nil,
      Bool.and_false, Bool.or_false]
  rw [← hHere] at hLevel ⊢
  exact
    Lex.fetch_token hCursor (Nat.zero_le _)
      (List.forall_mem_nil _) hBegins.starts
      (Or.inr (hBegins.percent c rfl)) (Or.inr hBegins.ruled)
      hKeys hLevel (by rw [hHere]; exact hCursor)

/- A collection starts. -/
theorem flowStart_ok
    (hSave :
      saveKey lexer =
        .ok ((), { lexer with keys := lexer.savedKeys }))
    (hCursor : lexer.cursor = Cursor.on (c :: rest) size mark)
    (hLine : isBreak c = false)
    (kind : TokenKind) :
    flowStart kind lexer =
      .ok ((),
        { lexer with
          cursor := Cursor.on rest size (mark.step c)
          tokens := ⟨kind, mark, mark.step c⟩ :: lexer.tokens
          count := lexer.count + 1
          keys := none :: lexer.savedKeys
          keyAllowed := true }) := by
  rw [flowStart, bind_ok hSave, bind_ok modify_ok,
    bind_ok (allowKey_ok true),
    addSkipping_one (by exact hCursor) hLine]

/- It ends again, before it holds anything. -/
theorem flowEnd_ok
    (hKeys : lexer.keys = [none, saved])
    (hCursor : lexer.cursor = Cursor.on (c :: rest) size mark)
    (hLine : isBreak c = false)
    (kind : TokenKind) :
    flowEnd kind lexer =
      .ok ((),
        { lexer with
          cursor := Cursor.on rest size (mark.step c)
          tokens := ⟨kind, mark, mark.step c⟩ :: lexer.tokens
          count := lexer.count + 1
          keys := [saved]
          keyAllowed := false }) := by
  have hDrop : dropKey lexer = .ok ((), lexer) :=
    dropKey_none hKeys
  have hFlow : lexer.inFlow = true := by
    unfold Lexer.inFlow
    rw [hKeys]
  rw [flowEnd, bind_ok hDrop, bind_ok modify_ok, hFlow,
    if_pos rfl, hKeys, bind_ok (allowKey_ok false),
    addSkipping_one (by exact hCursor) hLine]
  rfl

end Lex

namespace Brackets

variable {first last : Char}
variable {start stop : TokenKind}
variable {rest : List Char}
variable {size : Nat}
variable {mark : Mark}
variable {lexer : Lexer}
variable {saved : Option PendingKey}

/- The last bracket is fetched behind the first one. -/
theorem exists_fetch_last
    (hPair : Brackets first last start stop)
    (hCursor :
      lexer.cursor = Cursor.on (last :: rest) size mark)
    (hKeys : lexer.keys = [none, saved])
    (hIdle : ∀ key ∈ saved, key.required = false) :
    ∃ kept,
      Lex.fetch lexer =
          .ok ((),
            { lexer with
              cursor := Cursor.on rest size (mark.step last)
              tokens :=
                ⟨stop, mark, mark.step last⟩ :: lexer.tokens
              count := lexer.count + 1
              keys := [kept]
              keyAllowed := false }) ∧
        ∀ key ∈ kept, key ∈ saved := by
  let fresh := saved.filter fun key => !key.isStale mark
  have hKept (key : PendingKey) (hMem : key ∈ fresh) :
      key ∈ saved :=
    (Option.mem_filter_iff.mp hMem).1
  have hFresh :
      Lexer.freshKeys mark lexer.keys = [none, fresh] := by
    rw [hKeys]
    rfl
  have hBegins := (hPair.begins rest).2
  have hRequired :
      ∀ key, some key ∈ lexer.keys →
        key.required = true → key.isStale mark = false := by
    intro key hMem hTrue
    rw [hKeys, List.mem_cons, List.mem_singleton] at hMem
    rcases hMem with hNone | hMem
    · cases hNone
    · rw [hIdle key hMem.symm] at hTrue
      cases hTrue
  have hFetch :=
    Lex.fetch_here hCursor hBegins.1 hRequired
      (by
        rw [Lex.unindentTo, bind_ok get_ok, hFresh]
        rfl)
  rw [hFresh] at hFetch
  refine
    ⟨fresh.filter fun key => !key.isStale (mark.step last), ?_,
      ?_⟩
  · rw [hFetch,
      bind_ok
        ((hPair.dispatch_last (by exact hCursor)).trans
          (Lex.flowEnd_ok rfl (by exact hCursor) hBegins.2
            stop)),
      Lex.dropStale_keys]
    · rfl
    · intro key hMem hTrue
      have hSome : fresh = some key :=
        (List.mem_singleton.mp hMem).symm
      rw [hIdle key (hKept key hSome)] at hTrue
      cases hTrue
  · intro key hMem
    exact hKept key (Option.mem_filter_iff.mp hMem).1

end Brackets

/- The first bracket is fetched where a value may stand. -/
theorem Brackets.exists_fetch_first
    {size : Nat}
    {place : BlockPlace}
    {kinds : List TokenKind}
    {gap more : List Char}
    {mark : Mark}
    {pending : List Nat}
    {lexer : Lexer}
    {first last : Char}
    {start stop : TokenKind}
    (hPair : Brackets first last start stop)
    (hBefore :
      BlockBefore size place kinds gap mark pending lexer)
    (hRest : place.rest = first :: more)
    (hInside : levelOf place.levels < place.column) :
    ∃ ready saved kept here,
      BlockReady size (first :: more) here kinds place.levels
          place.allowed ready ∧
        (here.column : Int) = place.column ∧
          ready.savedKeys = [saved] ∧
            (∀ key ∈ kept, key ∈ saved) ∧
              Lex.fetch lexer =
                .ok ((),
                  { ready with
                    cursor :=
                      Cursor.on more size (here.step first)
                    tokens :=
                      ⟨start, here, here.step first⟩ ::
                        ready.tokens
                    count := ready.count + 1
                    keys := [none, kept]
                    keyAllowed := true }) := by
  have hColumn := hBefore.column
  rw [hRest, if_neg (List.cons_ne_nil _ _)] at hColumn
  have hBegins := (hPair.begins more).1
  have hReady := hBefore.ready
  rw [hRest] at hReady
  rcases hReady.exists_savedKeys with ⟨saved, hSaved⟩
  have hFetch :=
    hBefore.fetch_token hRest (hRest ▸ hBegins.1)
      (BlockReads.levels_le (Int.le_of_lt hInside))
  have hOpen :=
    (hPair.dispatch_first hReady.cursor).trans
      (Lex.flowStart_ok hReady.saveKey hReady.cursor hBegins.2
        start)
  rw [hColumn] at hInside
  let behind := (mark.after gap).step first
  refine
    ⟨_, saved, saved.filter fun key => !key.isStale behind, _,
      hReady, hColumn.symm, hSaved, ?_, ?_⟩
  · intro key hMem
    exact (Option.mem_filter_iff.mp hMem).1
  · rw [hFetch, bind_ok hOpen, Lex.dropStale_keys, hSaved]
    · rfl
    · intro key hMem hTrue
      rcases List.mem_cons.mp hMem with hNone | hMem
      · cases hNone
      · rw [(hReady.of_mem_savedKeys hInside hMem).1] at hTrue
        cases hTrue

namespace BlockReads

variable {size count : Nat}
variable {rest : List Char}
variable {levels : List Nat}
variable {column columnAfter : Int}
variable {allowed : Bool}
variable {first last : Char}
variable {start stop : TokenKind}

/- An empty collection. -/
theorem empty
    (hPair : Brackets first last start stop)
    (hInside : levelOf levels < column)
    (hEnd : EndsLine count rest columnAfter) :
    BlockReads size
      ⟨first :: last :: (lineGap count ++ rest), column, levels,
        allowed⟩
      [start, stop]
      ⟨rest, columnAfter, levels, true⟩ := by
  intro kinds lexer hAt
  rcases hAt with ⟨gap, mark, pending, hBefore⟩
  rcases hPair.exists_fetch_first hBefore rfl hInside with
    ⟨ready, saved, kept, here, hReady, hColumn, hSaved, hKept,
      hOpen⟩
  have hIdle (key : PendingKey) (hMem : key ∈ kept) :
      key.required = false := by
    apply (hReady.of_mem_savedKeys (hColumn ▸ hInside) _).1
    rw [hSaved, hKept key hMem]
    exact List.mem_singleton_self _
  let more := lineGap count ++ rest
  let behind := (here.step first).step last
  let opened : Lexer :=
    { ready with
      cursor := Cursor.on (last :: more) size (here.step first)
      tokens := ⟨start, here, here.step first⟩ :: ready.tokens
      count := ready.count + 1
      keys := [none, kept]
      keyAllowed := true }
  have hCursor :
      opened.cursor =
        Cursor.on (last :: more) size (here.step first) := rfl
  rcases hPair.exists_fetch_last hCursor rfl hIdle with
    ⟨left, hClose, hLeft⟩
  have hLength := hReady.length
  simp only [List.length_cons] at hLength
  have hColumnAfter := hEnd.column
  rw [← column_after_lineGap behind count] at hColumnAfter
  have hLine : here.line < (behind.after (lineGap count)).line :=
    Nat.lt_of_le_of_lt (here.line_le_after [first, last])
      (line_after_lineGap behind count)
  have hKinds :
      ∀ token ∈
          [(⟨stop, here.step first, behind⟩ : Token),
            ⟨start, here, here.step first⟩],
        token.kind ≠ .streamEnd := by
    simp [hPair.kinds_ne]
  have hDone :=
    (hReady.withTokens hKinds (hColumn ▸ hInside) (by omega)
        (isSpacing_of_mem_lineGap count) hColumnAfter hLine
        false (fun _ : true = true => rfl)).withKeys hSaved
      fun key hMem => hKept key (hLeft key hMem)
  have hLess : more.length + 2 ≤ lexer.cursor.rest.length := by
    rw [hBefore.cursor]
    simp only [Cursor.on, List.length_append,
      List.length_cons, more]
    omega
  refine ⟨_, ?_, _, _, _, hDone⟩
  apply Fetches.step hOpen
  · intro token hMem
    cases hMem
    exact hPair.kinds_ne.1
  · exact hLess
  apply Fetches.single hClose
  · intro token hMem
    cases hMem
    exact hPair.kinds_ne.2
  · exact Nat.lt_succ_self _

end BlockReads

end Yaml

end Transclusion
