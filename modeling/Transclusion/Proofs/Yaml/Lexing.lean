import Transclusion.Proofs.Yaml.Cursor
import Transclusion.Yaml.Token.Stream

/-
  Tokens are fetched one after another.

  Key definitions include:
    * `Transclusion.Yaml.Fetches`
    * `Transclusion.Yaml.Lexes`
    * `Transclusion.Yaml.Lexer.savedKeys`

  Key theorems include:
    * `Transclusion.Yaml.Lex.skipToToken_gap`
    * `Transclusion.Yaml.Lex.dropStale_keys`
    * `Transclusion.Yaml.Lex.fetch_token`
    * `Transclusion.Yaml.Fetches.exists_collect`

  As long as no pending key has to turn out a key, the keys
  that reach too far are given up without an error.
-/

------------------------------------------------------------
-- Elementary Steps
------------------------------------------------------------

namespace Transclusion

namespace Yaml

namespace Lex

variable {lexer : Lexer}
variable {rest : List Char}
variable {size : Nat}
variable {mark : Mark}

/- A scan moves the cursor of the lexer only. -/
theorem scan_ok
    {α : Type}
    {reading : Scan α}
    {result : α}
    {cursor : Cursor}
    (hReading : reading lexer.cursor = .ok (result, cursor)) :
    scan reading lexer =
      .ok (result, { lexer with cursor := cursor }) := by
  have hRun :
      (reading.run lexer.cursor : Lex (α × Cursor)) lexer =
        .ok ((result, cursor), lexer) := by
    change Except.bind (reading lexer.cursor) _ = _
    rw [hReading]
    rfl
  rw [scan, bind_ok get_ok, bind_ok hRun]
  rfl

/- A scan that is fine moves the cursor of the lexer only. -/
theorem meets_scan
    {α : Type}
    {reading : Scan α}
    {fault : SyntaxError → Prop}
    {fine : α → Cursor → Prop}
    (hReading : Meets fault reading lexer.cursor fine) :
    Meets fault (scan reading) lexer fun result after =>
      ∃ cursor,
        fine result cursor ∧
          after = { lexer with cursor := cursor } := by
  unfold Meets at hReading ⊢
  cases hOutcome : reading lexer.cursor with
  | error error =>
      have hScan : scan reading lexer = .error error := by
        change
          Except.bind
            (Except.bind (reading lexer.cursor) _) _ = _
        rw [hOutcome]
        rfl
      rw [hOutcome] at hReading
      rw [hScan]
      exact hReading
  | ok pair =>
      rw [hOutcome] at hReading
      rw [scan_ok hOutcome]
      exact ⟨pair.2, hReading, rfl⟩

/- Looking ahead changes nothing. -/
theorem scan_look
    {α : Type}
    {reading : Scan α}
    {result : α}
    (hReading :
      reading lexer.cursor = .ok (result, lexer.cursor)) :
    scan reading lexer = .ok (result, lexer) := by
  rw [scan_ok hReading]

/- The character behind the next one. -/
theorem scan_peekAt_one
    {c : Char}
    (hCursor :
      lexer.cursor = Cursor.on (c :: rest) size mark) :
    scan (Scan.peekAt 1) lexer = .ok (rest.head?, lexer) := by
  apply scan_look
  rw [hCursor, Scan.peekAt_on, List.getElem?_cons_succ,
    List.head?_eq_getElem?]

/- What is no indicator differs from all of them. -/
theorem beq_of_isIndicator
    {c d : Char}
    (hOther : isIndicator c = false)
    (hIndicator : isIndicator d = true) :
    (c == d) = false := by
  rw [beq_eq_false_iff_ne]
  rintro rfl
  rw [hOther] at hIndicator
  cases hIndicator

/- What is no indicator begins a text without quotes. -/
theorem dispatch_of_isIndicator
    {c : Char}
    (hIndicator : isIndicator c = false) :
    dispatch c lexer =
      (if startsPlain lexer.inFlow c lexer.cursor.rest[1]? then
        plainScalar
      else
        scan do
          Scan.fail .noTokenStart .nextToken (← Scan.mark))
        lexer := by
  have hNot (d : Char) (hMem : isIndicator d = true) :
      (c == d) = false :=
    beq_of_isIndicator hIndicator hMem
  have hAfter :
      scan (Scan.peekAt 1) lexer =
        .ok (lexer.cursor.rest[1]?, lexer) := by
    rfl
  rw [dispatch, bind_ok get_ok, bind_ok hAfter]
  simp only [hNot '[' rfl, hNot '{' rfl, hNot ']' rfl,
    hNot '}' rfl, hNot ',' rfl, hNot '-' rfl,
    hNot '?' rfl, hNot ':' rfl, hNot '*' rfl,
    hNot '&' rfl, hNot '!' rfl, hNot '|' rfl,
    hNot '>' rfl, hNot '\'' rfl, hNot '"' rfl,
    Bool.false_and, Bool.false_eq_true, if_false]
/- A text without quotes begins. -/
theorem dispatch_plain
    {c : Char}
    (hCursor :
      lexer.cursor = Cursor.on (c :: rest) size mark)
    (hPlain : startsPlain lexer.inFlow c rest.head? = true)
    (hDash : c = '-' → isGap rest.head? = false) :
    dispatch c lexer = plainScalar lexer := by
  have hCases := hPlain
  unfold startsPlain at hCases
  rw [Bool.or_eq_true_iff, Bool.or_eq_true_iff] at hCases
  rcases hCases with (hNone | hDashed) | hOpen
  · have hIndicator : isIndicator c = false := by
      simp only [Bool.not_eq_true', Bool.or_eq_false_iff]
        at hNone
      exact hNone.2
    have hAfter : lexer.cursor.rest[1]? = rest.head? := by
      rw [hCursor, List.head?_eq_getElem?]
      rfl
    rw [dispatch_of_isIndicator hIndicator, hAfter,
      if_pos hPlain]
  all_goals
    rw [dispatch, bind_ok get_ok,
      bind_ok (scan_peekAt_one hCursor)]
    simp only [hPlain, if_true]
  · rw [Bool.and_eq_true_iff, beq_iff_eq] at hDashed
    rcases hDashed with ⟨rfl, _⟩
    rw [hDash rfl]
    rfl
  · simp only [Bool.and_eq_true_iff, Bool.or_eq_true_iff,
      Bool.not_eq_true', beq_iff_eq] at hOpen
    rcases hOpen with ⟨⟨hFlow, rfl | rfl⟩, hGap⟩
    · rw [hFlow, hGap]
      rfl
    · rw [hFlow, hGap]
      rfl

/- A key is allowed or not. -/
@[simp]
theorem allowKey_ok
    (allowed : Bool) :
    allowKey allowed lexer =
      .ok ((), { lexer with keyAllowed := allowed }) := by
  rfl

/- A token is added at the end. -/
@[simp]
theorem add_ok
    (token : Token) :
    add token lexer =
      .ok ((),
        { lexer with
          tokens := token :: lexer.tokens
          count := lexer.count + 1 }) := by
  rfl

/- A token of one character is added. -/
theorem addSkipping_one
    {c : Char}
    (hCursor : lexer.cursor = Cursor.on (c :: rest) size mark)
    (hLine : isBreak c = false)
    (kind : TokenKind) :
    addSkipping kind 1 lexer =
      .ok ((),
        { lexer with
          cursor := Cursor.on rest size (mark.step c)
          tokens := ⟨kind, mark, mark.step c⟩ :: lexer.tokens
          count := lexer.count + 1 }) := by
  have hMark : scan Scan.mark lexer = .ok (mark, lexer) := by
    apply scan_look
    rw [hCursor, Scan.mark_on]
  have hSkip :
      scan (Scan.skip 1) lexer =
        .ok ((),
          { lexer with
            cursor := Cursor.on rest size (mark.step c) }) := by
    apply scan_ok
    rw [hCursor, Scan.skip_one hLine]
  rw [addSkipping, bind_ok hMark, bind_ok hSkip,
    bind_ok (scan_look Scan.mark_on), add_ok]

/- No block collection is opened inside a flow collection. -/
theorem indentTo_of_inFlow
    (hFlow : lexer.inFlow = true)
    (column number : Nat)
    (kind : TokenKind)
    (mark : Mark) :
    indentTo column number kind mark lexer =
      .ok ((), lexer) := by
  rw [indentTo, bind_ok get_ok, hFlow]
  rfl

/- The innermost key is replaced. -/
@[simp]
theorem replaceKey_ok
    (key : Option PendingKey) :
    replaceKey key lexer =
      .ok ((), { lexer with keys := key :: lexer.keys.tail }) := by
  rfl

end Lex

end Yaml

end Transclusion

------------------------------------------------------------
-- Gaps between Tokens
------------------------------------------------------------

namespace Transclusion

namespace Yaml

/- Whether a token comes next, and no gap or comment. -/
def StartsToken
    (text : List Char) : Prop :=
  ∀ c ∈ text.head?,
    isGap (some c) = false ∧ c ≠ '#' ∧ c.toNat ≠ 0xFEFF

/- Whether no blank, comment or byte order mark comes next. -/
def EndsSpaces
    (text : List Char) : Prop :=
  ∀ c ∈ text.head?,
    isWhite c = false ∧ c ≠ '#' ∧ c.toNat ≠ 0xFEFF

/- Spaces end where a token starts. -/
theorem StartsToken.endsSpaces
    {text : List Char}
    (hStart : StartsToken text) :
    EndsSpaces text := by
  intro c hMem
  have hStart := hStart c hMem
  exact ⟨(Bool.or_eq_false_iff.mp hStart.1).1, hStart.2⟩

/- A token starts in the same line. -/
theorem StartsToken.any_isBreak
    {text : List Char}
    (hStart : StartsToken text) :
    text.head?.any isBreak = false := by
  cases text with
  | nil => rfl
  | cons c more =>
      exact (Bool.or_eq_false_iff.mp (hStart c rfl).1).2

/- Spaces end where a line ends. -/
theorem endsSpaces_of_isBreak
    {c : Char}
    (hBreak : isBreak c = true)
    (rest : List Char) :
    EndsSpaces (c :: rest) := by
  intro d hMem
  cases hMem
  refine ⟨?_, ?_, ?_⟩
  · unfold isWhite
    rw [Bool.or_eq_false_iff, beq_eq_false_iff_ne,
      beq_eq_false_iff_ne]
    constructor <;> rintro rfl <;> cases hBreak
  · rintro rfl
    cases hBreak
  · intro hCode
    have hChar : c = Char.ofNat 0xFEFF := by
      rw [← hCode, Char.ofNat_toNat]
    rw [hChar] at hBreak
    cases hBreak

/- A gap is one of spaces, or there is a line break in it. -/
theorem split_lines
    {gap : List Char}
    (hGap : ∀ c ∈ gap, isSpacing c = true) :
    ∃ count,
      gap = List.replicate count ' ' ∨
        ∃ c more,
          gap = List.replicate count ' ' ++ c :: more ∧
            isBreak c = true ∧ c ≠ '\r' := by
  induction gap with
  | nil => exact ⟨0, Or.inl rfl⟩
  | cons c rest ih =>
      rw [List.forall_mem_cons] at hGap
      rcases isSpacing_cases hGap.1 with
        rfl | ⟨hBreak, hReturn, _⟩
      · rcases ih hGap.2 with ⟨count, hRest⟩
        refine ⟨count + 1, ?_⟩
        rw [List.replicate_succ]
        rcases hRest with rfl | ⟨d, more, rfl, hBreak⟩
        · exact Or.inl rfl
        · exact Or.inr ⟨d, more, rfl, hBreak⟩
      · exact ⟨0, Or.inr ⟨c, rest, rfl, hBreak, hReturn⟩⟩

namespace Lex

variable {lexer : Lexer}
variable {rest : List Char}
variable {size : Nat}
variable {mark : Mark}

/- Spaces up to a line break or a token are left behind. -/
theorem skipToToken_spaces
    (count : Nat)
    (hCursor :
      lexer.cursor =
        Cursor.on (List.replicate count ' ' ++ rest) size mark)
    (hRest : EndsSpaces rest)
    (fuel : Nat) :
    skipToToken (fuel + 1) lexer =
      (if rest.head?.any isBreak then do
        let _ ← scan Scan.lineBreak
        if !lexer.inFlow then
          allowKey true
        skipToToken fuel
      else pure ())
        { lexer with
          cursor :=
            Cursor.on rest size
              (mark.after (List.replicate count ' ')) } := by
  have hFirst :
      (List.replicate count ' ' ++ rest).head? ≠
        some (Char.ofNat 0xFEFF) := by
    cases count with
    | zero =>
        intro hEq
        exact (hRest _ hEq).2.2 rfl
    | succ count =>
        intro hEq
        cases hEq
  have hHash : rest.head? ≠ some '#' := fun hEq =>
    (hRest _ hEq).2.1 rfl
  have hSpan (tabs : Bool) :
      Scan.span (fun c => c == ' ' || (tabs && c == '\t'))
          lexer.cursor =
        .ok (List.replicate count ' ',
          Cursor.on rest size
            (mark.after (List.replicate count ' '))) := by
    rw [hCursor]
    apply Scan.span_append
    · exact List.forall_mem_replicate.mpr (Or.inr rfl)
    · exact List.forall_mem_replicate.mpr (Or.inr rfl)
    · intro c hMem
      have hWhite := (hRest c hMem).1
      unfold isWhite at hWhite
      rw [Bool.or_eq_false_iff] at hWhite ⊢
      rw [hWhite.2, Bool.and_false]
      exact ⟨hWhite.1, rfl⟩
  have hLook {count : Nat} :
      Scan.ensure count lexer.cursor = .ok ((), lexer.cursor) := by
    rw [hCursor]
    rfl
  have hByteOrder :
      Scan.nextIs (Char.ofNat 0xFEFF) lexer.cursor =
        .ok (false, lexer.cursor) := by
    rw [hCursor, Scan.nextIs_on, beq_eq_false_iff_ne.mpr hFirst]
  have hComment (lexer : Lexer)
      (hCursor : lexer.cursor = Cursor.on rest size
            (mark.after (List.replicate count ' '))) :
      scan Scan.skipComment lexer = .ok ((), lexer) := by
    apply scan_look
    rw [hCursor, Scan.skipComment, bind_ok (Scan.nextIs_on _),
      beq_eq_false_iff_ne.mpr hHash]
    rfl
  rw [skipToToken, bind_ok (scan_look hLook), bind_ok get_ok,
    bind_ok (scan_look hByteOrder)]
  simp only [Bool.and_false, Bool.false_eq_true, if_false]
  rw [bind_ok (scan_look hLook), bind_ok (scan_ok (hSpan _)),
    bind_ok (hComment _ rfl), bind_ok (scan_look Scan.peek_on)]
  split
  · rw [bind_ok (scan_look (Scan.ensure_on 2))]
  · rfl

/-
  A gap up to a token is left behind.  A line break in it
  allows a key to begin, outside flow collections.
-/
theorem skipToToken_gap
    {gap : List Char}
    (hGap : ∀ c ∈ gap, isSpacing c = true)
    (hStart : StartsToken rest)
    {flow : Bool}
    (hFlow : lexer.inFlow = flow)
    (hCursor :
      lexer.cursor = Cursor.on (gap ++ rest) size mark)
    {fuel : Nat}
    (hFuel : gap.length < fuel) :
    skipToToken fuel lexer =
      .ok ((),
        { lexer with
          cursor := Cursor.on rest size (mark.after gap)
          keyAllowed :=
            lexer.keyAllowed ||
              (!flow && gap.any isBreak) }) := by
  induction fuel generalizing gap lexer mark with
  | zero => omega
  | succ fuel ih =>
      rcases split_lines hGap with
        ⟨count, rfl | ⟨c, more, rfl, hBreak, hReturn⟩⟩
      · have hLine :
            (List.replicate count ' ').any isBreak = false := by
          rw [List.any_replicate]
          split <;> rfl
        rw [skipToToken_spaces count hCursor hStart.endsSpaces,
          hStart.any_isBreak, hLine, Bool.and_false,
          Bool.or_false]
        rfl
      · rw [List.forall_mem_append, List.forall_mem_cons]
          at hGap
        rw [List.append_assoc] at hCursor
        rw [List.length_append, List.length_cons] at hFuel
        have hMore
            (next : Lexer)
            (hNext : next.inFlow = flow)
            (hCursor :
              next.cursor =
                Cursor.on (more ++ rest) size
                  ((mark.after
                    (List.replicate count ' ')).step c)) :=
          ih hGap.2.2 hNext hCursor (by omega)
        rw [skipToToken_spaces count hCursor
            (endsSpaces_of_isBreak hBreak _),
          if_pos (by simpa using hBreak),
          bind_ok
            (scan_ok (Scan.lineBreak_cons hBreak hReturn)),
          Mark.after_append, List.any_append, List.any_cons,
          hBreak, Bool.true_or, Bool.or_true, hFlow]
        cases flow with
        | true =>
            rw [if_neg (by simp)]
            refine (hMore _ (by exact hFlow) rfl).trans ?_
            rfl
        | false =>
            rw [if_pos (by simp), bind_ok (allowKey_ok true)]
            refine (hMore _ (by exact hFlow) rfl).trans ?_
            simp only [Bool.true_or, Bool.not_false,
              Bool.true_and, Bool.or_true]
            rfl

end Lex

end Yaml

end Transclusion

------------------------------------------------------------
-- Pending Keys
------------------------------------------------------------

namespace Transclusion

namespace Yaml

namespace Lexer

/- What may begin a key here is kept for the innermost one. -/
def savedKeys
    (lexer : Lexer) : List (Option PendingKey) :=
  if lexer.keyAllowed then
    some
      ⟨lexer.count,
        !lexer.inFlow &&
          lexer.indent == (lexer.cursor.mark.column : Int),
        lexer.cursor.mark⟩ :: lexer.keys.tail
  else lexer.keys

end Lexer

/- A key that does not reach too far is kept. -/
theorem Lexer.head?_freshKeys
    {keys : List (Option PendingKey)}
    {key : PendingKey}
    {mark : Mark}
    (hKey : keys.head? = some (some key))
    (hFresh : key.isStale mark = false) :
    (freshKeys mark keys).head? = some (some key) := by
  unfold freshKeys
  rw [List.head?_map, hKey, Option.map_some,
    Option.filter_some_pos (by rw [hFresh]; rfl)]

/- A short text within a line can be a key. -/
theorem PendingKey.isStale_after
    {key : PendingKey}
    {text : List Char}
    (hLine : ∀ c ∈ text, isBreak c = false)
    (hShort : byteCount text ≤ 1024) :
    key.isStale (key.mark.after text) = false := by
  rw [Mark.after_of_line hLine]
  unfold PendingKey.isStale
  simp only [Nat.lt_irrefl, decide_false, Bool.false_or,
    decide_eq_false_iff_not]
  omega

namespace Lex

variable {lexer : Lexer}

/- Keys that need not turn out keys are given up silently. -/
theorem dropStale_keys
    (hKeys :
      ∀ key, some key ∈ lexer.keys →
        key.required = true →
          key.isStale lexer.cursor.mark = false) :
    dropStale lexer =
      .ok ((),
        { lexer with
          keys :=
            Lexer.freshKeys lexer.cursor.mark lexer.keys }) := by
  have hNone :
      lexer.keys.reverse.findSome?
          (Option.filter fun key =>
            key.isStale lexer.cursor.mark && key.required) =
        none := by
    rw [List.findSome?_eq_none_iff]
    intro key hMem
    rw [Option.filter_eq_none_iff]
    rintro pending rfl hStale
    rw [Bool.and_eq_true_iff] at hStale
    have hFresh :=
      hKeys pending (List.mem_reverse.mp hMem) hStale.2
    rw [hStale.1] at hFresh
    cases hFresh
  rw [dropStale, bind_ok get_ok]
  simp only [hNone]
  rfl

/- A key that need not turn out one is given up silently. -/
theorem dropKey_keys
    {key : Option PendingKey}
    {more : List (Option PendingKey)}
    (hKeys : lexer.keys = key :: more)
    (hNone : ∀ pending ∈ key, pending.required = false) :
    dropKey lexer =
      .ok ((), { lexer with keys := none :: more }) := by
  have hSilent : key.filter (·.required) = none := by
    rw [Option.filter_eq_none_iff]
    intro pending hPending
    simp [hNone pending hPending]
  rw [dropKey, bind_ok get_ok, hKeys]
  simp only [List.head?_cons, Option.join_some, hSilent]
  rfl

/- Without a key there is none to give up. -/
theorem dropKey_none
    {more : List (Option PendingKey)}
    (hKeys : lexer.keys = none :: more) :
    dropKey lexer = .ok ((), lexer) := by
  have hNone : ∀ pending ∈ (none : Option PendingKey),
      pending.required = false := by
    rintro pending ⟨⟩
  rw [dropKey_keys hKeys hNone, ← hKeys]

/- A key that may begin here is remembered. -/
theorem saveKey_keys
    {key : Option PendingKey}
    {more : List (Option PendingKey)}
    (hKeys : lexer.keys = key :: more)
    (hNone : ∀ pending ∈ key, pending.required = false) :
    saveKey lexer =
      .ok ((), { lexer with keys := lexer.savedKeys }) := by
  rw [saveKey, bind_ok get_ok]
  unfold Lexer.savedKeys
  split
  · simp only
    rw [bind_ok (dropKey_keys hKeys hNone), replaceKey_ok, hKeys]
    rfl
  · rfl

end Lex

end Yaml

end Transclusion

------------------------------------------------------------
-- The Next Token
------------------------------------------------------------

namespace Transclusion

namespace Yaml

namespace Lexer

/- A lexer in front of a token, behind a gap. -/
def atToken
    (lexer : Lexer)
    (rest gap : List Char) : Lexer :=
  let mark := lexer.cursor.mark.after gap
  { lexer with
    cursor := Cursor.on rest lexer.cursor.size mark
    keyAllowed :=
      lexer.keyAllowed || (!lexer.inFlow && gap.any isBreak)
    keys := freshKeys mark lexer.keys }

end Lexer

namespace Lex

variable {lexer level : Lexer}
variable {rest gap : List Char}
variable {size : Nat}
variable {mark : Mark}

/- The way to the next token. -/
theorem fetch_eq
    (hCursor :
      lexer.cursor = Cursor.on (gap ++ rest) size mark)
    (hSize : gap.length ≤ size)
    (hGap : ∀ c ∈ gap, isSpacing c = true)
    (hStart : StartsToken rest)
    (hKeys :
      ∀ key, some key ∈ lexer.keys →
        key.required = true →
          key.isStale (mark.after gap) = false)
    (hLevel :
      unindentTo (mark.after gap).column
          (lexer.atToken rest gap) =
        .ok ((), level))
    (hUnmoved :
      level.cursor = Cursor.on rest size (mark.after gap)) :
    fetch lexer =
      (do
        match rest.head? with
        | none => streamEnd
        | some c =>
            if (mark.after gap).column == 0 && c == '%' then
              directive
            else if ← scan (Scan.atIndicator '-') then
              documentIndicator .documentStart
            else if ← scan (Scan.atIndicator '.') then
              documentIndicator .documentEnd
            else
              dispatch c
        dropStale : Lex Unit) level := by
  have hSkip :=
    skipToToken_gap hGap hStart rfl hCursor
      (Nat.lt_succ_of_le hSize)
  have hFuel :
      scan Scan.fuel lexer = .ok (size + 1, lexer) := by
    apply scan_look
    rw [hCursor]
    rfl
  have hDrop :
      dropStale
          { lexer with
            cursor := Cursor.on rest size (mark.after gap)
            keyAllowed :=
              lexer.keyAllowed ||
                (!lexer.inFlow && gap.any isBreak) } =
        .ok ((), lexer.atToken rest gap) := by
    rw [dropStale_keys (by exact hKeys)]
    unfold Lexer.atToken
    rw [hCursor]
    rfl
  have hMark :
      scan Scan.mark (lexer.atToken rest gap) =
        .ok (mark.after gap, lexer.atToken rest gap) := by
    unfold Lexer.atToken
    rw [hCursor]
    rfl
  have hEnsure (count : Nat) :
      scan (Scan.ensure count) level = .ok ((), level) := by
    apply scan_look
    rw [hUnmoved]
    rfl
  have hPeek :
      scan Scan.peek level = .ok (rest.head?, level) := by
    apply scan_look
    rw [hUnmoved, Scan.peek_on]
  rw [fetch, bind_ok hFuel, bind_ok hSkip, bind_ok hDrop,
    bind_ok hMark, bind_ok hLevel, bind_ok (hEnsure 4)]
  exact (bind_ok hPeek).trans rfl

/- A token is read by the rule for its first character. -/
theorem fetch_token
    {c : Char}
    (hCursor :
      lexer.cursor = Cursor.on (gap ++ c :: rest) size mark)
    (hSize : gap.length ≤ size)
    (hGap : ∀ c ∈ gap, isSpacing c = true)
    (hStart : StartsToken (c :: rest))
    (hPercent : (mark.after gap).column ≠ 0 ∨ c ≠ '%')
    (hRuled :
      (mark.after gap).column ≠ 0 ∨ ¬ IsRuled (c :: rest))
    (hKeys :
      ∀ key, some key ∈ lexer.keys →
        key.required = true →
          key.isStale (mark.after gap) = false)
    (hLevel :
      unindentTo (mark.after gap).column
          (lexer.atToken (c :: rest) gap) =
        .ok ((), level))
    (hUnmoved :
      level.cursor =
        Cursor.on (c :: rest) size (mark.after gap)) :
    fetch lexer =
      (do
        dispatch c
        dropStale : Lex Unit) level := by
  have hIndicator (d : Char) (hOne : d = '-' ∨ d = '.') :
      scan (Scan.atIndicator d) level = .ok (false, level) := by
    apply scan_look
    rw [hUnmoved]
    rcases Scan.exists_atIndicator d with ⟨found, hRun, hFound⟩
    cases found with
    | false => exact hRun
    | true =>
        rcases hFound rfl with ⟨hColumn, hThree⟩
        refine (hRuled.elim (· hColumn) fun hRuled => hRuled ?_).elim
        rcases hOne with rfl | rfl
        · exact Or.inl hThree
        · exact Or.inr hThree
  rw [fetch_eq hCursor hSize hGap hStart hKeys hLevel hUnmoved]
  simp only [List.head?_cons]
  have hNone :
      ((mark.after gap).column == 0 && c == '%') = false := by
    rw [Bool.and_eq_false_iff, beq_eq_false_iff_ne,
      beq_eq_false_iff_ne]
    exact hPercent
  rw [hNone]
  simp only [Bool.false_eq_true, if_false]
  rw [bind_ok (hIndicator '-' (Or.inl rfl))]
  simp only [Bool.false_eq_true, if_false]
  rw [bind_ok (hIndicator '.' (Or.inr rfl))]
  rfl

/- At the end of a text the stream ends. -/
theorem fetch_end
    (hCursor : lexer.cursor = Cursor.on gap size mark)
    (hSize : gap.length ≤ size)
    (hGap : ∀ c ∈ gap, isSpacing c = true)
    (hKeys :
      ∀ key, some key ∈ lexer.keys →
        key.required = true →
          key.isStale (mark.after gap) = false)
    (hLevel :
      unindentTo (mark.after gap).column
          (lexer.atToken [] gap) =
        .ok ((), level))
    (hUnmoved :
      level.cursor = Cursor.on [] size (mark.after gap)) :
    fetch lexer =
      (do
        streamEnd
        dropStale : Lex Unit) level := by
  rw [← List.append_nil gap] at hCursor
  have hStart : StartsToken [] := by
    intro c hMem
    cases hMem
  exact
    fetch_eq hCursor hSize hGap hStart hKeys hLevel hUnmoved

/- The stream ends on a line of its own. -/
theorem exists_streamEnd
    (hCursor : lexer.cursor = Cursor.on [] size mark) :
    ∃ ending,
      streamEnd lexer =
        (do
          closeDocument
          addEmpty .streamEnd (← scan Scan.mark) : Lex Unit)
          { lexer with cursor := Cursor.on [] size ending } := by
  let ending : Mark :=
    if mark.column = 0 then mark
    else { mark with line := mark.line + 1, column := 0 }
  have hMove :
      (modify fun lexer : Lexer =>
        let mark := lexer.cursor.mark
        if mark.column = 0 then lexer
        else
          { lexer with
            cursor :=
              { lexer.cursor with
                mark :=
                  { mark with
                    line := mark.line + 1
                    column := 0 } } } : Lex Unit) lexer =
        .ok ((),
          { lexer with cursor := Cursor.on [] size ending }) := by
    rw [modify_ok]
    unfold ending
    by_cases hColumn : mark.column = 0
    · simp only [hCursor, Cursor.on, hColumn, if_true]
      rw [← Cursor.on, ← hCursor]
    · simp only [hCursor, Cursor.on, hColumn, if_false]
  refine ⟨ending, ?_⟩
  rw [streamEnd, bind_ok hMove]

end Lex

end Yaml

end Transclusion

------------------------------------------------------------
-- Token by Token
------------------------------------------------------------

namespace Transclusion

namespace Yaml

/- The lexer in front of a text. -/
def Lexer.start
    (text : List Char) : Lexer where
  cursor := Cursor.on text text.length Mark.start
  tokens := [⟨.streamStart, Mark.start, Mark.start⟩]
  count := 1

/-
  Tokens are fetched one after another.  None of them ends
  the stream, and each leaves characters behind.
-/
inductive Fetches : Lexer → Lexer → Prop where
  | refl
      (lexer : Lexer) :
      Fetches lexer lexer
  | step
      {lexer next final : Lexer}
      (hFetch : Lex.fetch lexer = .ok ((), next))
      (hRunning :
        ∀ token ∈ next.tokens.head?,
          token.kind ≠ .streamEnd)
      (hLess :
        next.cursor.rest.length < lexer.cursor.rest.length)
      (hMore : Fetches next final) :
      Fetches lexer final

namespace Fetches

variable {lexer next final : Lexer}

/- One token. -/
theorem single
    (hFetch : Lex.fetch lexer = .ok ((), next))
    (hRunning :
      ∀ token ∈ next.tokens.head?, token.kind ≠ .streamEnd)
    (hLess :
      next.cursor.rest.length < lexer.cursor.rest.length) :
    Fetches lexer next :=
  .step hFetch hRunning hLess (.refl next)

/- Some tokens and then others. -/
theorem trans
    (hFirst : Fetches lexer next)
    (hSecond : Fetches next final) :
    Fetches lexer final := by
  induction hFirst with
  | refl => exact hSecond
  | step hFetch hRunning hLess _ ih =>
      exact .step hFetch hRunning hLess (ih hSecond)

/- The tokens of a text are those fetched, and more. -/
theorem exists_collect
    (hFetches : Fetches lexer final) :
    ∃ count,
      count + final.cursor.rest.length ≤
          lexer.cursor.rest.length ∧
        ∀ fuel,
          TokenStream.collect (fuel + count) lexer =
            TokenStream.collect fuel final := by
  induction hFetches with
  | refl => exact ⟨0, by omega, fun fuel => rfl⟩
  | @step lexer next final hFetch hRunning hLess _ ih =>
      rcases ih with ⟨count, hCount, hCollect⟩
      refine ⟨count + 1, by omega, fun fuel => ?_⟩
      have hRun : Lex.fetch.run lexer = .ok ((), next) := hFetch
      rw [← hCollect, ← Nat.add_assoc, TokenStream.collect,
        hRun]
      simp only
      split
      · rename_i hHead
        exact absurd rfl (hRunning _ hHead)
      · rfl

/- The end of the stream comes last. -/
theorem collect_end
    (hFetch : Lex.fetch lexer = .ok ((), next))
    (hEnd :
      next.tokens.head?.map Token.kind = some .streamEnd)
    (fuel : Nat) :
    TokenStream.collect (fuel + 1) lexer =
      ⟨next.tokens.reverse, none⟩ := by
  have hRun : Lex.fetch.run lexer = .ok ((), next) := hFetch
  rw [TokenStream.collect, hRun]
  simp only
  rcases Option.map_eq_some_iff.mp hEnd with
    ⟨⟨kind, start, stop⟩, hHead, rfl⟩
  rw [hHead]

/- A text that is read to its end has the tokens read. -/
theorem tokens_ofText
    {text : List Char}
    {kinds : List TokenKind}
    (hFetches : Fetches (Lexer.start text) final)
    (hAllowed : ∀ c ∈ text, isAllowed c = true)
    (hEnd : Lex.fetch final = .ok ((), next))
    (hTokens :
      next.tokens.reverse.map Token.kind =
        kinds ++ [.streamEnd]) :
    (TokenStream.ofText text).tokens.map Token.kind =
      kinds ++ [.streamEnd] := by
  rcases hFetches.exists_collect with
    ⟨count, hCount, hCollect⟩
  have hFuel :
      text.length + 2 =
        text.length + 1 - count + 1 + count := by
    change count + final.cursor.rest.length ≤ text.length
      at hCount
    omega
  have hHead :
      next.tokens.head?.map Token.kind = some .streamEnd := by
    have hEnding := congrArg List.getLast? hTokens
    rw [List.getLast?_concat, List.map_reverse,
      List.getLast?_reverse, List.head?_map] at hEnding
    exact hEnding
  rw [TokenStream.ofText, Cursor.ofText_of_isAllowed hAllowed]
  change (TokenStream.collect (text.length + 2)
    (Lexer.start text)).tokens.map Token.kind = _
  rw [hFuel, hCollect, Fetches.collect_end hEnd hHead]
  exact hTokens

end Fetches

/-
  From one place to another some tokens are read, whatever
  was read before.
-/
def Lexes
    {place : Type}
    (stands : place → List TokenKind → Lexer → Prop)
    (before : place)
    (produced : List TokenKind)
    (after : place) : Prop :=
  ∀ kinds lexer,
    stands before kinds lexer →
      ∃ next,
        Fetches lexer next ∧
          stands after (kinds ++ produced) next

namespace Lexes

variable {place : Type}
variable {stands : place → List TokenKind → Lexer → Prop}
variable {before between after : place}
variable {produced others : List TokenKind}

/- No tokens. -/
theorem refl
    (here : place) :
    Lexes stands here [] here := by
  intro kinds lexer hStands
  rw [List.append_nil]
  exact ⟨lexer, .refl lexer, hStands⟩

/- Some tokens and then others. -/
theorem trans
    (hFirst : Lexes stands before produced between)
    (hSecond : Lexes stands between others after) :
    Lexes stands before (produced ++ others) after := by
  intro kinds lexer hStands
  rcases hFirst kinds lexer hStands with
    ⟨middle, hMiddle, hBetween⟩
  rcases hSecond _ middle hBetween with
    ⟨next, hNext, hAfter⟩
  rw [List.append_assoc] at hAfter
  exact ⟨next, hMiddle.trans hNext, hAfter⟩

end Lexes

end Yaml

end Transclusion
