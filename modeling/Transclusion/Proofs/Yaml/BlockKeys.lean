import Transclusion.Proofs.Yaml.BlockReads

/-
  Simple keys, and whole texts of block collections.

  Key theorems include:
    * `Transclusion.Yaml.BlockReads.ofKey`
    * `Transclusion.Yaml.BlockReads.tokens_ofText`

  A key is known as one by the colon behind it.  Its token,
  and the start of a collection, are put in front of what
  has been read by then.
-/

------------------------------------------------------------
-- Simple Keys
------------------------------------------------------------

namespace Transclusion

namespace Yaml

/- A token is put in front of the last ones. -/
theorem Lexer.insert_append
    {lexer : Lexer}
    {number : Nat}
    {added older : List Token}
    (hTokens : lexer.tokens = added ++ older)
    (hCount : lexer.count = number + added.length)
    (token : Token) :
    lexer.insert number token =
      { lexer with
        tokens := added ++ token :: older
        count := lexer.count + 1 } := by
  have hBehind : lexer.count - number = added.length := by
    omega
  unfold Lexer.insert
  simp only [hBehind, hTokens, List.take_left,
    List.drop_left]

/- No collection is closed by a token that is indented. -/
theorem Lex.unindentTo_of_le
    {lexer : Lexer}
    {column : Int}
    (hIndent : lexer.indent ≤ column) :
    unindentTo column lexer = .ok ((), lexer) := by
  rw [unindentTo, bind_ok get_ok]
  split
  · cases lexer.indents with
    | nil => rfl
    | cons outer more =>
        rw [closeTo, bind_ok get_ok,
          if_neg (Int.not_lt.mpr hIndent), pure_ok]
  · rfl

namespace BlockReady

variable {size : Nat}
variable {text more : List Char}
variable {mark behind : Mark}
variable {kinds starts : List TokenKind}
variable {levels levelsAfter : List Nat}
variable {allowed : Bool}
variable {ready : Lexer}

/- What is kept of a key that may begin here. -/
def pendingKey
    (ready : Lexer)
    (mark : Mark) : PendingKey :=
  ⟨ready.count, ready.indent == (mark.column : Int), mark⟩

/- A lexer that has read what may be a key. -/
def besideKey
    (ready : Lexer)
    (size : Nat)
    (more : List Char)
    (mark behind : Mark)
    (token : Token) : Lexer :=
  { ready with
    cursor := Cursor.on more size behind
    tokens := token :: ready.tokens
    count := ready.count + 1
    keys := [some (pendingKey ready mark)]
    keyAllowed := false }

/- Where a key is allowed it may begin. -/
theorem savedKeys_eq
    (hReady :
      BlockReady size text mark kinds levels true ready) :
    ready.savedKeys = [some (pendingKey ready mark)] := by
  unfold Lexer.savedKeys pendingKey
  rw [if_pos (hReady.allowed rfl), hReady.inFlow, hReady.keys,
    hReady.cursor]
  rfl

/- Tokens are read, in front of which a collection opens. -/
theorem indentTo_key
    (hReady :
      BlockReady size text mark kinds levels allowed ready)
    (hOpens :
      Opens .blockMappingStart mark.column levels starts
        levelsAfter)
    (hLength : more.length ≤ size)
    (behind : Mark)
    {added : List Token}
    (hKinds : ∀ token ∈ added, token.kind ≠ .streamEnd)
    (waiting : Option PendingKey)
    (keyAllowed : Bool) :
    ∃ done,
      Lex.indentTo mark.column ready.count .blockMappingStart
          mark
          { ready with
            cursor := Cursor.on more size behind
            tokens := added ++ ready.tokens
            count := ready.count + added.length
            keys := [waiting]
            keyAllowed := keyAllowed } =
        .ok ((), done) ∧
        done.keys = [waiting] ∧
          BlockReady size more behind
            (kinds ++
              (starts ++ added.reverse.map Token.kind))
            levelsAfter false
            { done with keys := [none], keyAllowed := false } := by
  let beside : Lexer :=
    { ready with
      cursor := Cursor.on more size behind
      tokens := added ++ ready.tokens
      count := ready.count + added.length
      keys := [waiting]
      keyAllowed := keyAllowed }
  have hFlow : beside.inFlow = false := rfl
  have hRunning :
      TokenKind.streamEnd ∉ added.reverse.map Token.kind := by
    intro hMem
    rcases List.mem_map.mp hMem with ⟨token, hToken, hEnd⟩
    exact hKinds token (List.mem_reverse.mp hToken) hEnd
  rw [Lex.indentTo, bind_ok get_ok]
  change ∃ done, (if !beside.inFlow && _ then _ else _ : Lex Unit)
    beside = _ ∧ _
  rw [hFlow]
  cases hOpens with
  | first hDeeper =>
      let start : Token := ⟨.blockMappingStart, mark, mark⟩
      let opened : Lexer :=
        { beside with
          indent := mark.column
          indents := beside.indent :: beside.indents }
      have hInsert :
          opened.insert ready.count start =
            { opened with
              tokens := added ++ start :: ready.tokens
              count := opened.count + 1 } :=
        Lexer.insert_append rfl rfl start
      have hLess :=
        Lex.indent_lt_of_stack hReady.stack hDeeper
      refine
        ⟨{ opened with
            tokens := added ++ start :: ready.tokens
            count := opened.count + 1 }, ?_, rfl,
          rfl, hLength, ?_, ?_, ?_, rfl, Bool.noConfusion, ?_⟩
      · rw [if_pos (by simpa using hLess), ← hInsert]
        rfl
      · simp only [List.reverse_append, List.reverse_cons,
          List.map_append, hReady.tokens, List.append_assoc]
        rfl
      · simp only [opened, beside, List.length_append,
          List.length_cons, hReady.count]
        omega
      · exact congrArg (_ :: ·) hReady.stack
      · simp only [List.mem_append, List.mem_singleton, not_or]
        exact ⟨hReady.running, TokenKind.noConfusion, hRunning⟩
  | next =>
      have hEqual : ready.indent = (mark.column : Int) :=
        Lex.indent_of_stack hReady.stack
      refine
        ⟨beside, ?_, rfl, rfl, hLength, ?_, ?_, hReady.stack,
          rfl, Bool.noConfusion, ?_⟩
      · rw [if_neg (by simp [hEqual])]
        rfl
      · simp only [beside, List.reverse_append,
          List.map_append, hReady.tokens, List.nil_append]
      · simp only [beside, List.length_append, hReady.count]
        omega
      · simp only [List.mem_append, List.nil_append, not_or]
        exact ⟨hReady.running, hRunning⟩

/- The colon behind a key that opens a collection, or not. -/
theorem valueOfKey
    (hReady :
      BlockReady size text mark kinds levels allowed ready)
    (hOpens :
      Opens .blockMappingStart mark.column levels starts
        levelsAfter)
    (token : Token)
    (hKind : token.kind ≠ .streamEnd)
    (hLength : (':' :: more).length ≤ size)
    (behind : Mark) :
    ∃ done,
      Lex.value
          (besideKey ready size (':' :: more) mark behind
            token) =
        .ok ((), done) ∧
        BlockReady size more (behind.step ':')
          (kinds ++ (starts ++ [.key, token.kind, .value]))
          levelsAfter false done := by
  let key : Token := ⟨.key, mark, mark⟩
  let beside :=
    besideKey ready size (':' :: more) mark behind token
  have hInsert :
      beside.insert ready.count key =
        { beside with
          tokens := [token, key] ++ ready.tokens
          count := ready.count + [token, key].length } :=
    Lexer.insert_append
      (show beside.tokens = [token] ++ ready.tokens from rfl)
      rfl key
  have hKinds :
      ∀ other ∈ [token, key], other.kind ≠ .streamEnd := by
    rw [List.forall_mem_cons, List.forall_mem_singleton]
    exact ⟨hKind, TokenKind.noConfusion⟩
  rcases hReady.indentTo_key hOpens hLength behind
      hKinds (some (pendingKey ready mark)) false with
    ⟨opened, hOpen, hKeys, hOpened⟩
  rcases hOpened.addSkipping rfl
      (show TokenKind.value ≠ .streamEnd from
        TokenKind.noConfusion) with
    ⟨done, hAdd, hDone⟩
  refine ⟨done, ?_, by simpa [key] using hDone⟩
  have hHead :
      beside.keys.head? =
        some (some (pendingKey ready mark)) := rfl
  have hTail : opened.keys.tail = [] := by
    rw [hKeys]
    rfl
  rw [Lex.value, bind_ok get_ok, hHead]
  change (set (beside.insert ready.count key) >>= _ : Lex Unit)
    beside = _
  rw [hInsert, bind_ok set_ok, bind_ok (by exact hOpen),
    bind_ok (Lex.replaceKey_ok none),
    bind_ok (Lex.allowKey_ok false), hTail]
  exact hAdd

end BlockReady

/-
  What stands between the colon behind a simple key, at a
  column, and the value: a space, or a line break and an
  indentation, behind which another key may begin.
-/
inductive KeyGap
    (colon : Nat) : List Char → Nat → Bool → Prop where
  | space : KeyGap colon [' '] (colon + 2) false
  | line
      (count : Nat) :
      KeyGap colon (lineGap count) count true

namespace KeyGap

variable {colon column : Nat}
variable {gap : List Char}
variable {allowed : Bool}

/- It is a gap. -/
theorem isSpacing_of_mem
    (hGap : KeyGap colon gap column allowed) :
    ∀ c ∈ gap, isSpacing c = true := by
  cases hGap with
  | space => exact List.forall_mem_singleton.mpr rfl
  | line => exact isSpacing_of_mem_lineGap column

/- It ends the key. -/
theorem isGap_head?
    (hGap : KeyGap colon gap column allowed)
    (rest : List Char) :
    isGap (gap ++ rest).head? = true := by
  cases hGap with
  | space => rfl
  | line => rfl

/- The column behind it. -/
theorem column_after
    (hGap : KeyGap colon gap column allowed)
    {mark : Mark}
    (hColon : mark.column = colon) :
    ((mark.step ':').after gap).column = column := by
  cases hGap with
  | space =>
      rw [← hColon]
      rfl
  | line => exact column_after_lineGap _ column

/- Whether a key may begin behind it. -/
theorem any_isBreak
    (hGap : KeyGap colon gap column allowed) :
    gap.any isBreak = allowed := by
  cases hGap with
  | space => rfl
  | line => rfl

end KeyGap

namespace BlockReady

variable {size column : Nat}
variable {text gap rest : List Char}
variable {mark behind : Mark}
variable {kinds starts : List TokenKind}
variable {levels levelsAfter : List Nat}
variable {allowed allowedAfter : Bool}
variable {ready : Lexer}

/- A key that is not stale is waited for. -/
theorem freshKeys_besideKey
    (hFresh : (pendingKey ready mark).isStale behind = false) :
    Lexer.freshKeys behind [some (pendingKey ready mark)] =
      [some (pendingKey ready mark)] := by
  change [(some (pendingKey ready mark)).filter _] = _
  rw [Option.filter_some_pos (by rw [hFresh]; rfl)]

/- No such key is missing its colon. -/
theorem isStale_of_mem_besideKey
    (hFresh : (pendingKey ready mark).isStale behind = false) :
    ∀ key, some key ∈ [some (pendingKey ready mark)] →
      key.required = true → key.isStale behind = false := by
  intro key hMem _
  cases List.mem_singleton.mp hMem
  exact hFresh

/- It is not dropped. -/
theorem dropStale_besideKey
    (token : Token)
    (hFresh : (pendingKey ready mark).isStale behind = false) :
    Lex.dropStale
        (besideKey ready size text mark behind token) =
      .ok ((), besideKey ready size text mark behind token) := by
  let beside := besideKey ready size text mark behind token
  have hWaiting :
      ∀ key, some key ∈ beside.keys →
        key.required = true →
          key.isStale beside.cursor.mark = false :=
    isStale_of_mem_besideKey hFresh
  have hKept :
      Lexer.freshKeys beside.cursor.mark beside.keys =
        beside.keys :=
    freshKeys_besideKey hFresh
  rw [Lex.dropStale_keys hWaiting, hKept]

/- The colon behind a scalar makes it a key. -/
theorem fetch_colon
    (hReady :
      BlockReady size text mark kinds levels allowed ready)
    (hOpens :
      Opens .blockMappingStart mark.column levels starts
        levelsAfter)
    (token : Token)
    (hKind : token.kind ≠ .streamEnd)
    (hInside : mark.column ≤ behind.column)
    (hGap : KeyGap behind.column gap column allowedAfter)
    (hRest : rest ≠ [])
    (hLength : (':' :: (gap ++ rest)).length ≤ size)
    (hFresh : (pendingKey ready mark).isStale behind = false) :
    ∃ next,
      Fetches
          (besideKey ready size (':' :: (gap ++ rest)) mark
            behind token)
          next ∧
        BlockAt size
          ⟨rest, (column : Int), levelsAfter, allowedAfter⟩
          (kinds ++ (starts ++ [.key, token.kind, .value]))
          next := by
  let beside :=
    besideKey ready size (':' :: (gap ++ rest)) mark behind
      token
  have hHere :
      beside.cursor =
        Cursor.on (':' :: (gap ++ rest)) size behind :=
    rfl
  have hKept :
      Lexer.freshKeys behind beside.keys = beside.keys :=
    freshKeys_besideKey hFresh
  have hLevel :
      Lex.unindentTo behind.column beside = .ok ((), beside) := by
    apply Lex.unindentTo_of_le
    change ready.indent ≤ _
    rw [Lex.indent_of_stack hReady.stack]
    exact
      Int.le_trans hOpens.levelOf_le (Int.ofNat_le.mpr hInside)
  have hFetch :=
    Lex.fetch_here hHere
      (beginsToken_indicator (show ':' ∈ _ by decide) _)
      (isStale_of_mem_besideKey hFresh)
      (by rw [hKept]; exact hLevel)
  have hDispatch :
      Lex.dispatch ':' beside = Lex.value beside := by
    rw [Lex.dispatch, bind_ok get_ok,
      bind_ok (Lex.scan_peekAt_one hHere), hGap.isGap_head? rest]
    rfl
  rcases hReady.valueOfKey hOpens token hKind hLength behind with
    ⟨done, hValue, hDone⟩
  have hPlace :
      BlockAt size
        ⟨rest, (column : Int), levelsAfter, allowedAfter⟩
        (kinds ++ (starts ++ [.key, token.kind, .value]))
        done := by
    apply hDone.behindGap gap hGap.isSpacing_of_mem
    · rw [if_neg hRest, hGap.column_after rfl]
    · intro hAllowed
      rw [hGap.any_isBreak, hAllowed]
      rfl
  rcases hPlace.dropStale with
    ⟨next, hDrop, hNext, hCursor, hTokens⟩
  have hLast : Lex.fetch beside = .ok ((), next) := by
    rw [hFetch, hKept, bind_ok (hDispatch.trans hValue)]
    exact hDrop
  refine ⟨next, .single hLast hNext.running ?_, hNext⟩
  rw [hCursor, hDone.cursor]
  exact Nat.lt_succ_self _

end BlockReady

namespace BlockReads

variable {size indent column : Nat}
variable {written gap rest others : List Char}
variable {first : Char}
variable {kind : TokenKind}
variable {starts : List TokenKind}
variable {levels levelsAfter : List Nat}
variable {allowed : Bool}

/- A scalar with a colon behind it is a key. -/
theorem ofKey
    (hWritten : written = first :: others)
    (hBegins : BeginsToken (written ++ ':' :: (gap ++ rest)))
    (hLine : ∀ c ∈ written, isBreak c = false)
    (hShort : byteCount written ≤ 1024)
    (hOpens :
      Opens .blockMappingStart indent levels starts levelsAfter)
    (hGap : KeyGap (indent + written.length) gap column allowed)
    (hRest : rest ≠ [])
    (hKind : kind ≠ .streamEnd)
    (hRule :
      ∀ ready mark kinds,
        mark.column = indent →
          BlockReady size (written ++ ':' :: (gap ++ rest)) mark
              kinds levels true ready →
            ∃ token,
              token.kind = kind ∧
                Lex.dispatch first ready =
                  .ok ((),
                    BlockReady.besideKey ready size
                      (':' :: (gap ++ rest)) mark
                      (mark.after written) token)) :
    BlockReads size
      ⟨written ++ ':' :: (gap ++ rest), (indent : Int), levels,
        true⟩
      (starts ++ [.key, kind, .value])
      ⟨rest, (column : Int), levelsAfter, allowed⟩ := by
  intro kinds lexer hAt
  rcases hAt with ⟨before, mark, pending, hBefore⟩
  have hLevels :
      ∀ level ∈ levels.head?, (level : Int) ≤ (indent : Int) :=
    fun level hMem =>
      Int.ofNat_le.mpr (hOpens.levels_le level hMem)
  have hFetch :=
    hBefore.fetch_token
      (show written ++ ':' :: (gap ++ rest) = first :: _ by
        rw [hWritten]
        rfl)
      hBegins hLevels
  have hReady := hBefore.ready
  have hColumn := hBefore.column
  rw [if_neg (by simp)] at hColumn
  have hIndent : (mark.after before).column = indent :=
    (Int.ofNat.inj hColumn).symm
  generalize mark.after before = here at hReady hIndent
  generalize BlockBefore.settled lexer _ before mark pending =
    ready at hFetch hReady
  rcases hRule ready here kinds hIndent hReady with
    ⟨token, rfl, hScalar⟩
  have hBehind :
      (here.after written).column = indent + written.length := by
    rw [Mark.after_of_line hLine, hIndent]
  have hFresh :
      (BlockReady.pendingKey ready here).isStale
          (here.after written) =
        false :=
    PendingKey.isStale_after hLine hShort
  have hFirst :
      Lex.fetch lexer =
        .ok ((),
          BlockReady.besideKey ready size
            (':' :: (gap ++ rest)) here (here.after written)
            token) := by
    rw [hFetch, bind_ok hScalar]
    exact BlockReady.dropStale_besideKey token hFresh
  have hLength : (':' :: (gap ++ rest)).length ≤ size := by
    have hWhole := hReady.length
    rw [List.length_append] at hWhole
    omega
  rcases hReady.fetch_colon (hIndent.symm ▸ hOpens) token hKind
      (by omega) (hBehind.symm ▸ hGap) hRest hLength hFresh with
    ⟨next, hFetches, hNext⟩
  refine ⟨next, .step hFirst ?_ ?_ hFetches, hNext⟩
  · intro other hMem
    cases hMem
    exact hKind
  · rw [hBefore.cursor, hWritten]
    simp only [BlockReady.besideKey, Cursor.on,
      List.length_append, List.length_cons]
    omega

variable {text content : List Char}

/- A text in quotes, within a line, is a key. -/
theorem quotedKey
    (single : Bool)
    (hText : QuotedText single text content)
    (hLine : ∀ c ∈ content, isBreak c = false)
    (hShort : byteCount content + 2 ≤ 1024)
    (hWritten :
      written =
        quoteChar single :: (content ++ [quoteChar single]))
    (hOpens :
      Opens .blockMappingStart indent levels starts levelsAfter)
    (hGap : KeyGap (indent + written.length) gap column allowed)
    (hRest : rest ≠ []) :
    BlockReads size
      ⟨written ++ ':' :: (gap ++ rest), (indent : Int), levels,
        true⟩
      (starts ++
        [.key,
          .scalar text
            (if single then .singleQuoted else .doubleQuoted),
          .value])
      ⟨rest, (column : Int), levelsAfter, allowed⟩ := by
  have hByte : (quoteChar single).utf8Size = 1 := by
    cases single <;> rfl
  have hBreak : isBreak (quoteChar single) = false := by
    cases single <;> rfl
  apply ofKey hWritten _ _ _ hOpens hGap hRest
    TokenKind.noConfusion
  · intro ready mark kinds hIndent hReady
    have hLength := hReady.length
    rw [hWritten, List.cons_append, List.append_assoc]
      at hReady
    rw [hWritten] at hLength
    simp only [List.length_append, List.length_cons] at hLength
    have hAfter :
        single = true →
          (':' :: (gap ++ rest)).head? ≠ some '\'' := by
      intro _ hEq
      cases hEq
    have hRead :=
      (congrArg (Scan.quotedScalar single) hReady.cursor).trans
        (Scan.quotedScalar_text hText hAfter (by omega))
    refine
      ⟨⟨.scalar text _, mark, mark.after written⟩, rfl, ?_⟩
    rw [hReady.dispatch_quote single, hReady.keyStart hRead,
      hReady.savedKeys_eq, hWritten]
    rfl
  · rw [hWritten]
    exact beginsToken_quote single _
  · rw [hWritten, List.forall_mem_cons, List.forall_mem_append,
      List.forall_mem_singleton]
    exact ⟨hBreak, hLine, hBreak⟩
  · have hLast : byteCount [quoteChar single] = 1 := by
      rw [byteCount_cons, hByte]
      rfl
    rw [hWritten, byteCount_cons, byteCount_append, hByte,
      hLast]
    omega

/- A text without quotes is a key. -/
theorem plainKey
    (hText : PlainText false text)
    (hBegins : BeginsPlain (text ++ ':' :: (gap ++ rest)))
    (hShort : byteCount text ≤ 1024)
    (hOpens :
      Opens .blockMappingStart indent levels starts levelsAfter)
    (hGap : KeyGap (indent + text.length) gap column allowed)
    (hRest : rest ≠ []) :
    BlockReads size
      ⟨text ++ ':' :: (gap ++ rest), (indent : Int), levels,
        true⟩
      (starts ++ [.key, .scalar text .plain, .value])
      ⟨rest, (column : Int), levelsAfter, allowed⟩ := by
  rcases hText.exists_cons with ⟨first, others, hFirst, hNone⟩
  apply ofKey hFirst hBegins.begins hText.isBreak_of_mem hShort
    hOpens hGap hRest TokenKind.noConfusion
  intro ready mark kinds hIndent hReady
  have hWhole :
      text ++ ':' :: (gap ++ rest) =
        first :: (others ++ ':' :: (gap ++ rest)) := by
    rw [hFirst]
    rfl
  have hLength := hReady.length
  rw [List.length_append] at hLength
  have hEnds : EndsPlain false (':' :: (gap ++ rest)) :=
    Or.inl ⟨rfl, hGap.isGap_head? rest⟩
  have hComment : text.head? ≠ some '#' := by
    rw [hWhole] at hBegins
    rw [hFirst]
    exact fun hEq => hBegins.ne_hash (Option.some.inj hEq)
  have hParent : levelOf levels ≤ (mark.column : Int) :=
    hIndent ▸ hOpens.levelOf_le
  have hTail :
      ∀ c ∈ (':' :: (gap ++ rest)).head?,
        isGap (some c) = false := by
    intro c hMem
    cases hMem
    rfl
  have hSpacing : ∀ c ∈ [], isSpacing c = true :=
    List.forall_mem_nil _
  have hSize : text.length + ([] : List Char).length ≤ size := by
    rw [List.length_nil]
    omega
  have hPlain :=
    Scan.plainScalar_text (levelOf levels) hText
      (Or.inr hBegins.begins.ruled) hComment hSpacing hTail
      (Or.inr hEnds) (fun _ => hParent) hSize
  have hRead :=
    (congrArg (Scan.plainScalar (levelOf levels) false)
      hReady.cursor).trans hPlain
  have hSaved := hReady.savedKeys_eq
  rw [hWhole] at hReady hBegins
  refine
    ⟨⟨.scalar text .plain, mark, mark.after text⟩, rfl, ?_⟩
  rw [hReady.dispatch_plain hBegins, hReady.plainScalar hRead,
    hSaved]
  rfl

end BlockReads

end Yaml

end Transclusion

------------------------------------------------------------
-- Streams
------------------------------------------------------------

namespace Transclusion

namespace Yaml

namespace Lex

variable {lexer : Lexer}
variable {levels : List Nat}

/- At a column some of the open collections are closed. -/
theorem exists_unindentTo
    {column : Int}
    (hFlow : lexer.inFlow = false)
    (hStack : lexer.stack = indentStack levels)
    (hColumn : -1 ≤ column) :
    ∃ count others,
      count + others.length = levels.length ∧
        unindentTo column lexer =
          .ok ((),
            closed lexer lexer.cursor.mark count
              (indentStack others)) := by
  let isDeeper (level : Nat) : Bool := column < (level : Int)
  let deeper := levels.takeWhile isDeeper
  let others := levels.dropWhile isDeeper
  have hSplit : deeper ++ others = levels :=
    List.takeWhile_append_dropWhile
  rw [← hSplit] at hStack
  refine
    ⟨deeper.length, others, ?_,
      unindentTo_pending hFlow hStack ?_ ?_ hColumn⟩
  · rw [← hSplit, List.length_append]
  · intro level hMem
    have hDeeper : isDeeper level = true :=
      List.mem_takeWhile_imp hMem
    exact of_decide_eq_true hDeeper
  · intro level hMem
    have hOuter :=
      List.head?_dropWhile_not isDeeper levels
    rw [show (levels.dropWhile isDeeper).head? = some level
      from hMem] at hOuter
    exact Int.not_lt.mp (of_decide_eq_false hOuter)

/- At the end of a text all collections are closed. -/
theorem streamEnd_ok
    {size : Nat}
    {mark : Mark}
    (hCursor : lexer.cursor = Cursor.on [] size mark)
    (hKeys : lexer.keys = [none])
    (hStack : lexer.stack = indentStack levels) :
    ∃ done,
      streamEnd lexer = .ok ((), done) ∧
        done.keys = [none] ∧
          done.tokens.reverse.map Token.kind =
            lexer.tokens.reverse.map Token.kind ++
              List.replicate levels.length .blockEnd ++
                [.streamEnd] := by
  rcases exists_streamEnd hCursor with ⟨ending, hEnd⟩
  let moved : Lexer :=
    { lexer with cursor := Cursor.on [] size ending }
  have hMoved : moved.keys = [none] := hKeys
  have hFlow : moved.inFlow = false := by
    rw [Lexer.inFlow, hMoved]
  have hAll : moved.stack = indentStack (levels ++ []) := by
    rw [List.append_nil]
    exact hStack
  let closed : Lexer :=
    Lex.closed moved ending levels.length (indentStack [])
  have hClose : unindentTo (-1) moved = .ok ((), closed) :=
    unindentTo_pending hFlow hAll (fun level _ => by omega)
      (fun _ hMem => by cases hMem) (Int.le_refl _)
  have hDrop : dropKey closed = .ok ((), closed) :=
    dropKey_none hKeys
  have hDocument :
      closeDocument moved =
        .ok ((), { closed with keyAllowed := false }) := by
    rw [closeDocument, bind_ok hClose, bind_ok hDrop]
    rfl
  refine
    ⟨{ closed with
        keyAllowed := false
        tokens := ⟨.streamEnd, ending, ending⟩ :: closed.tokens
        count := closed.count + 1 }, ?_, hKeys, ?_⟩
  · rw [hEnd, bind_ok hDocument]
    rfl
  · simp [closed, Lex.closed, moved]

end Lex

/- The start of a text. -/
theorem BlockAt.start
    {text : List Char}
    (hSome : text ≠ []) :
    BlockAt text.length ⟨text, 0, [], true⟩ [.streamStart]
      (Lexer.start text) := by
  refine
    ⟨[], Mark.start, [], rfl, Nat.le_refl _,
      List.forall_mem_nil _, ?_, fun _ => rfl, rfl, rfl, rfl,
      List.forall_mem_nil _, ⟨none, rfl, ?_⟩, ?_⟩
  · rw [if_neg hSome]
    rfl
  · intro waiting hMem
    cases hMem
  · simp

/- The end of a text is the end of the stream. -/
theorem BlockAt.fetch_end
    {size : Nat}
    {column : Int}
    {allowed : Bool}
    {kinds : List TokenKind}
    {lexer : Lexer}
    (hAt : BlockAt size ⟨[], column, [], allowed⟩ kinds lexer) :
    ∃ next,
      Lex.fetch lexer = .ok ((), next) ∧
        next.tokens.reverse.map Token.kind =
          kinds ++ [.streamEnd] := by
  rcases hAt with ⟨gap, mark, pending, hBefore⟩
  have hCursor := hBefore.cursor
  have hLength := hBefore.length
  have hStack := hBefore.stack
  simp only [List.append_nil] at hCursor hLength hStack
  have hColumn : -1 ≤ ((mark.after gap).column : Int) := by
    omega
  rcases Lex.exists_unindentTo hBefore.inFlow_atToken hStack
      hColumn with
    ⟨count, others, hCount, hLevel⟩
  have hUnmoved := hBefore.cursor_atToken
  let last :=
    Lex.closed (lexer.atToken [] gap)
      (lexer.atToken [] gap).cursor.mark count
      (indentStack others)
  have hFresh : last.keys = [none] := by
    change Lexer.freshKeys _ lexer.keys = [none]
    rw [hCursor]
    exact hBefore.freshKeys_eq
  rcases Lex.streamEnd_ok (show last.cursor = _ from hUnmoved)
      hFresh (Lex.stack_closed _ _ _ _) with
    ⟨done, hEnd, hKeys, hTokens⟩
  have hDrop : Lex.dropStale done = .ok ((), done) := by
    have hSame :
        Lexer.freshKeys done.cursor.mark done.keys =
          done.keys := by
      rw [hKeys]
      rfl
    rw [Lex.dropStale_keys, hSame]
    intro key hMem
    rw [hKeys] at hMem
    cases List.mem_singleton.mp hMem
  refine ⟨done, ?_, ?_⟩
  · rw [Lex.fetch_end hCursor hLength hBefore.spacing
      hBefore.idle hLevel hUnmoved, bind_ok hEnd, hDrop]
  · rw [hTokens, ← hBefore.tokens, ← hCount,
      List.replicate_add]
    simp only [last, Lex.closed, Lexer.atToken,
      List.reverse_append, List.reverse_replicate,
      List.map_append, List.map_replicate,
      List.append_assoc]

/- A text that is read to its end has the tokens read. -/
theorem BlockReads.tokens_ofText
    {text : List Char}
    {produced : List TokenKind}
    {column : Int}
    {allowed : Bool}
    (hSome : text ≠ [])
    (hAllowed : ∀ c ∈ text, isAllowed c = true)
    (hReads :
      BlockReads text.length ⟨text, 0, [], true⟩ produced
        ⟨[], column, [], allowed⟩) :
    (TokenStream.ofText text).tokens.map Token.kind =
      .streamStart :: produced ++ [.streamEnd] := by
  rcases hReads _ _ (BlockAt.start hSome) with
    ⟨last, hFetches, hLast⟩
  rcases hLast.fetch_end with ⟨next, hEnd, hTokens⟩
  exact hFetches.tokens_ofText hAllowed hEnd hTokens

end Yaml

end Transclusion
