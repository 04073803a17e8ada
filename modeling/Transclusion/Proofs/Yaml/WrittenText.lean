import Transclusion.Proofs.Yaml.BlockKeys
import Transclusion.Proofs.Yaml.Escaped

/-
  What is written for a text is read as the text.

  Key theorems include:
    * `Transclusion.Yaml.IsShown.plainText`
    * `Transclusion.Yaml.IsQuotable.exists_quoted`
    * `Transclusion.Yaml.quotedText_escaped`

  A text stands without quotes, or with single ones, only if
  nothing in it would be read as something else.
-/

------------------------------------------------------------
-- Writable Characters
------------------------------------------------------------

namespace Transclusion

namespace Yaml

variable {c : Char}

/- Writable characters may occur in texts. -/
theorem isAllowed_of_isWritable
    (hWritable : isWritable c = true) :
    isAllowed c = true := by
  unfold isWritable at hWritable
  unfold isAllowed
  simp only [Bool.or_eq_true, Bool.and_eq_true,
    decide_eq_true_eq, beq_iff_eq, bne_iff_ne]
    at hWritable ⊢
  omega

/- Tabs and byte order marks are not writable. -/
theorem ne_of_isWritable
    (hWritable : isWritable c = true) :
    c ≠ '\t' ∧ c.toNat ≠ 0xFEFF := by
  constructor
  · rintro rfl
    cases hWritable
  · intro hCode
    unfold isWritable at hWritable
    simp [hCode] at hWritable

/- Writable line breaks stand for themselves. -/
theorem keepsBreak_of_isWritable
    (hWritable : isWritable c = true)
    (hBreak : isBreak c = true) :
    KeepsBreak c := by
  refine ⟨hBreak, ?_⟩
  unfold isBreak at hBreak
  simp only [Bool.or_eq_true, beq_iff_eq] at hBreak
  rcases hBreak with (((rfl | rfl) | hCode) | hCode) | hCode
  · rfl
  · cases hWritable
  · unfold isWritable at hWritable
    simp [hCode] at hWritable
  · unfold breakText
    rw [if_pos (by simp [hCode])]
  · unfold breakText
    rw [if_pos (by simp [hCode])]

/- Writable characters are characters of literal blocks. -/
theorem isLiteralChar_of_isWritable
    (hWritable : isWritable c = true) :
    IsLiteralChar c :=
  ⟨(ne_of_isWritable hWritable).1,
    keepsBreak_of_isWritable hWritable⟩

/- Of the writable characters only spaces and breaks are gaps. -/
theorem isGap_of_isWritable
    (hWritable : isWritable c = true)
    (hSpace : c ≠ ' ')
    (hBreak : isBreak c = false) :
    isGap (some c) = false := by
  change (isWhite c || isBreak c) = false
  unfold isWhite
  rw [hBreak, Bool.or_false, Bool.or_eq_false_iff,
    beq_eq_false_iff_ne, beq_eq_false_iff_ne]
  exact ⟨hSpace, (ne_of_isWritable hWritable).1⟩

end Yaml

end Transclusion

------------------------------------------------------------
-- Pairs of Characters
------------------------------------------------------------

namespace Transclusion

namespace Yaml

/- No two characters in a row have the properties. -/
theorem hasPair_eq_false_iff
    {first second : Char → Bool}
    {text : List Char} :
    hasPair first second text = false ↔
      ∀ before a b behind,
        text = before ++ a :: b :: behind →
          first a = true → second b = false := by
  induction text with
  | nil => simp [hasPair]
  | cons a rest ih =>
      cases rest with
      | nil =>
          refine ⟨fun _ before c d behind hEq => ?_, fun _ => rfl⟩
          have hLength := congrArg List.length hEq
          simp only [List.length_append, List.length_cons,
            List.length_nil] at hLength
          omega
      | cons b more =>
          rw [hasPair, Bool.or_eq_false_iff, ih]
          constructor
          · rintro ⟨hHere, hMore⟩ before c d behind hEq hFirst
            cases before with
            | nil =>
                cases hEq
                simpa [hFirst] using hHere
            | cons e before =>
                exact
                  hMore before c d behind
                    (List.cons.inj hEq).2 hFirst
          · intro hAll
            constructor
            · cases hFirst : first a with
              | false => rfl
              | true =>
                  rw [hAll [] a b more rfl hFirst]
                  rfl
            · intro before c d behind hEq
              exact
                hAll (a :: before) c d behind
                  (by rw [hEq, List.cons_append])

/- Nor do any in a part of the text. -/
theorem hasPair_of_append
    {first second : Char → Bool}
    {before text : List Char}
    (hNone : hasPair first second (before ++ text) = false) :
    hasPair first second text = false := by
  rw [hasPair_eq_false_iff] at hNone ⊢
  intro more a b behind hEq
  apply hNone (before ++ more) a b behind
  rw [hEq, List.append_assoc]

end Yaml

end Transclusion

------------------------------------------------------------
-- Texts without Quotes
------------------------------------------------------------

namespace Transclusion

namespace Yaml

variable {text rest : List Char}

/-
  A text that can stand without quotes: it has no line break
  in it, no space at its ends, and nothing in it that has a
  meaning of its own.
-/
structure IsShown
    (text : List Char) : Prop where
  nonempty : text ≠ []
  writable : ∀ c ∈ text, isWritable c = true
  line : ∀ c ∈ text, isBreak c = false
  first : text.head? ≠ some ' '
  last : text.getLast? ≠ some ' '
  opening :
    ∀ c ∈ text.head?, c ∉ "#,[]\x7b\x7d&*!|>'\"%@`".toList
  mark :
    ∀ c ∈ text.head?,
      c ∈ "?:-".toList → isGap text[1]? = false
  ruled : ¬ IsRuled text
  colon :
    hasPair (· == ':') (fun c => isGap (some c)) text = false
  lastColon : text.getLast? ≠ some ':'
  comment :
    hasPair (fun c => isGap (some c)) (· == '#') text = false

/- Where plain notation is allowed, a text can be shown. -/
theorem isShown_of_allowPlain
    (hSome : text ≠ [])
    (hPlain : (Traits.ofText text).allowPlain = true) :
    IsShown text := by
  unfold Traits.allowPlain Traits.ofText hasIndicator at hPlain
  simp only [Bool.not_eq_true', Bool.or_eq_false_iff,
    Bool.not_eq_false', List.all_eq_true, List.any_eq_false,
    beq_eq_false_iff_ne, ne_eq] at hPlain
  rcases hPlain with
    ⟨⟨⟨⟨⟨⟨hWritable, hLine⟩, hFirst⟩, hLast⟩, _⟩, _⟩,
      ⟨⟨hStart, hRuled⟩, hColon⟩, hComment⟩
  have hOpening (c : Char) (hMem : text.head? = some c) :
      c ∉ "#,[]\x7b\x7d&*!|>'\"%@`".toList ∧
        (c ∈ "?:-".toList → isGap text[1]? = false) := by
    simp only [hMem, Bool.or_eq_false_iff,
      Bool.and_eq_false_iff] at hStart
    constructor
    · intro hIn
      rw [List.contains_iff_mem.mpr hIn] at hStart
      cases hStart.1
    · intro hIn
      exact
        hStart.2.resolve_left
          (by rw [List.contains_iff_mem.mpr hIn]; decide)
  refine
    ⟨hSome, hWritable,
      fun c hMem => Bool.eq_false_iff.mpr (hLine c hMem), ?_, ?_,
      fun c hMem => (hOpening c hMem).1,
      fun c hMem => (hOpening c hMem).2,
      (Or.elim · hRuled.1 hRuled.2), hColon.1, hColon.2,
      hComment⟩
  · intro hSpace
    rw [hSpace] at hFirst
    cases hFirst
  · intro hSpace
    rw [hSpace] at hLast
    cases hLast

/-
  What of this is true of a text behind the first of its
  spaces as well.
-/
structure IsSpaced
    (text : List Char) : Prop where
  nonempty : text ≠ []
  solid : ∀ c ∈ text, c ≠ ' ' → isGap (some c) = false
  first : text.head? ≠ some ' '
  last : text.getLast? ≠ some ' '
  colon :
    hasPair (· == ':') (fun c => isGap (some c)) text = false
  lastColon : text.getLast? ≠ some ':'
  comment :
    hasPair (fun c => isGap (some c)) (· == '#') text = false

namespace IsSpaced

variable {word more : List Char}
variable {count : Nat}

/- A word stands in front of the first spaces. -/
theorem word_ne_nil
    (hSpaced :
      IsSpaced
        (word ++ List.replicate (count + 1) ' ' ++ more)) :
    word ≠ [] := by
  rintro rfl
  exact hSpaced.first rfl

/- Something stands behind them. -/
theorem more_ne_nil
    (hSpaced :
      IsSpaced
        (word ++ List.replicate (count + 1) ' ' ++ more)) :
    more ≠ [] := by
  rintro rfl
  apply hSpaced.last
  rw [List.append_nil, List.replicate_succ',
    ← List.append_assoc, List.getLast?_concat]

/- The word does not end in a colon. -/
theorem plainWord
    (hSpaced :
      IsSpaced
        (word ++ List.replicate (count + 1) ' ' ++ more))
    (hWord : ∀ c ∈ word, c ≠ ' ') :
    PlainWord false word := by
  refine ⟨fun c hMem => ?_, ?_, Bool.noConfusion⟩
  · exact
      hSpaced.solid c
        (List.mem_append_left _ (List.mem_append_left _ hMem))
        (hWord c hMem)
  · intro hEq
    rcases List.eq_nil_or_concat word with
      rfl | ⟨start, last, rfl⟩
    · cases hEq
    · rw [List.concat_eq_append, List.getLast?_concat] at hEq
      cases hEq
      have hSpace :=
        hasPair_eq_false_iff.mp hSpaced.colon start ':' ' '
          (List.replicate count ' ' ++ more)
          (by simp [List.replicate_succ]) rfl
      cases hSpace

/- What stands behind the spaces is no comment. -/
theorem head?_ne_hash
    (hSpaced :
      IsSpaced
        (word ++ List.replicate (count + 1) ' ' ++ more)) :
    more.head? ≠ some '#' := by
  intro hEq
  rcases List.exists_cons_of_ne_nil hSpaced.more_ne_nil with
    ⟨first, others, rfl⟩
  cases hEq
  have hHash :=
    hasPair_eq_false_iff.mp hSpaced.comment
      (word ++ List.replicate count ' ') ' ' '#' others
      (by rw [List.replicate_succ']; simp) rfl
  cases hHash

/- It is spaced like the whole text. -/
theorem behind
    (hSpaced :
      IsSpaced
        (word ++ List.replicate (count + 1) ' ' ++ more))
    (hMore : more.head? ≠ some ' ') :
    IsSpaced more := by
  have hSome := hSpaced.more_ne_nil
  have hLast := hSpaced.last
  have hLastColon := hSpaced.lastColon
  rw [List.getLast?_append_of_ne_nil _ hSome]
    at hLast hLastColon
  exact
    ⟨hSome,
      fun c hMem =>
        hSpaced.solid c (List.mem_append_right _ hMem),
      hMore, hLast, hasPair_of_append hSpaced.colon,
      hLastColon, hasPair_of_append hSpaced.comment⟩

/- Such a text is made of words with spaces between them. -/
theorem plainText
    (hSpaced : IsSpaced text) :
    PlainText false text := by
  induction hLength : text.length using Nat.strongRecOn
    generalizing text with
  | ind length ih =>
      rcases split_spaces text with
        hWord | ⟨word, count, more, rfl, hWord, hMore⟩
      · exact
          .word
            ⟨fun c hMem =>
                hSpaced.solid c hMem (hWord c hMem),
              hSpaced.lastColon, Bool.noConfusion⟩
            hSpaced.nonempty
      · have hPositive :=
          List.length_pos_iff.mpr hSpaced.word_ne_nil
        have hLess : more.length < length := by
          simp only [List.length_append,
            List.length_replicate] at hLength
          omega
        exact
          .spaces (hSpaced.plainWord hWord)
            hSpaced.word_ne_nil count hSpaced.head?_ne_hash
            (ih more.length hLess (hSpaced.behind hMore) rfl)

end IsSpaced

namespace IsShown

/- The characters of the text but spaces are no gaps. -/
theorem isGap_of_mem
    (hShown : IsShown text)
    {c : Char}
    (hMem : c ∈ text)
    (hSpace : c ≠ ' ') :
    isGap (some c) = false :=
  isGap_of_isWritable (hShown.writable c hMem) hSpace
    (hShown.line c hMem)

/- The text is made of words with spaces between them. -/
theorem plainText
    (hShown : IsShown text) :
    PlainText false text :=
  IsSpaced.plainText
    { hShown with solid := fun _ hMem => hShown.isGap_of_mem hMem }

/- Behind the text there is nothing that could rule it. -/
theorem not_isRuled_append
    (hShown : IsShown text)
    (hRest : ∀ c ∈ rest.head?, c ≠ '-' ∧ c ≠ '.') :
    ¬ IsRuled (text ++ rest) := by
  have hTake (d : Char)
      (hDashOrPoint : d = '-' ∨ d = '.')
      (hText : text.take 3 ≠ [d, d, d]) :
      (text ++ rest).take 3 ≠ [d, d, d] := by
    rw [List.take_append]
    intro hEq
    cases hBehind : rest.take (3 - text.length) with
    | nil =>
        rw [hBehind, List.append_nil] at hEq
        exact hText hEq
    | cons e more =>
        have hHead : rest.head? = some e := by
          cases rest with
          | nil => simp at hBehind
          | cons f others =>
              cases hCount : 3 - text.length with
              | zero => simp [hCount] at hBehind
              | succ count =>
                  rw [hCount, List.take_succ_cons] at hBehind
                  cases hBehind
                  rfl
        have hNone := hRest e hHead
        have hMem : e ∈ [d, d, d] := by
          rw [← hEq, hBehind]
          simp
        have hSame : e = d := by simpa using hMem
        rcases hDashOrPoint with rfl | rfl
        · exact hNone.1 hSame
        · exact hNone.2 hSame
  rintro (hDashes | hPoints)
  · exact
      hTake '-' (Or.inl rfl)
        (fun hEq => hShown.ruled (Or.inl hEq)) hDashes
  · exact
      hTake '.' (Or.inr rfl)
        (fun hEq => hShown.ruled (Or.inr hEq)) hPoints

/- A mark at the start has no gap behind it. -/
theorem isGap_second
    (hShown : IsShown text)
    {first : Char}
    (hFirst : text.head? = some first)
    (hMark : first ∈ "?:-".toList)
    (rest : List Char) :
    isGap (text ++ rest)[1]? = false := by
  have hSecond := hShown.mark first hFirst hMark
  cases hNext : text[1]? with
  | none =>
      rw [hNext] at hSecond
      cases hSecond
  | some d =>
      rw [List.getElem?_append_left
        (List.getElem?_eq_some_iff.mp hNext).1]
      exact hSecond

/- The first character begins a scalar. -/
theorem startsPlain
    (hShown : IsShown text)
    {first : Char}
    (hFirst : text.head? = some first)
    (hGap : isGap (some first) = false)
    (rest : List Char) :
    Lex.startsPlain false first (text ++ rest)[1]? = true := by
  unfold Lex.startsPlain
  change (isWhite first || isBreak first) = false at hGap
  by_cases hMark : first ∈ "?:-".toList
  · have hAfter := hShown.isGap_second hFirst hMark rest
    have hThree :
        first = '?' ∨ first = ':' ∨ first = '-' := by
      simpa using hMark
    cases hNext : (text ++ rest)[1]? with
    | none =>
        rw [hNext] at hAfter
        cases hAfter
    | some d =>
        rw [hNext] at hAfter
        have hWhite := (Bool.or_eq_false_iff.mp hAfter).1
        rcases hThree with rfl | rfl | rfl <;>
          simp [hAfter, hWhite]
  · have hIndicator : Lex.isIndicator first = false := by
      rw [Bool.eq_false_iff]
      intro hIndicator
      have hEither :
          ∀ d ∈ "-?:,[]\x7b\x7d#&*!|>'\"%@`".toList,
            d ∈ "?:-".toList ∨
              d ∈ "#,[]\x7b\x7d&*!|>'\"%@`".toList :=
        List.forall_iff_forall_mem.mp (by decide)
      exact
        (hEither first
          (List.contains_iff_mem.mp hIndicator)).elim hMark
          (hShown.opening first hFirst)
    rw [hGap, hIndicator]
    rfl

/- The text begins a token that is a scalar. -/
theorem beginsPlain
    (hShown : IsShown text)
    (hRest : ∀ c ∈ rest.head?, c ≠ '-' ∧ c ≠ '.') :
    BeginsPlain (text ++ rest) := by
  rcases List.exists_cons_of_ne_nil hShown.nonempty with
    ⟨first, more, hText⟩
  have hHead : text.head? = some first := by
    rw [hText]
    rfl
  have hMem : first ∈ text := List.mem_of_mem_head? hHead
  have hSpace : first ≠ ' ' := by
    rintro rfl
    exact hShown.first hHead
  have hGap := hShown.isGap_of_mem hMem hSpace
  have hNot (d : Char)
      (hIn : d ∈ "#,[]\x7b\x7d&*!|>'\"%@`".toList) :
      first ≠ d := by
    rintro rfl
    exact hShown.opening _ hHead hIn
  have hRuled := hShown.not_isRuled_append hRest
  have hWhole : (text ++ rest).head? = some first := by
    rw [hText]
    rfl
  refine ⟨?_, fun c hFirst => ?_, fun hDash => ?_⟩
  · rw [hText] at hRuled ⊢
    exact
      beginsToken_cons hGap (hNot '#' (by decide))
        (ne_of_isWritable (hShown.writable first hMem)).2
        (hNot '%' (by decide)) hRuled
  · rw [hWhole] at hFirst
    cases hFirst
    exact hShown.startsPlain hHead hGap rest
  · rw [hWhole] at hDash
    cases hDash
    exact hShown.isGap_second hHead (by decide) rest

end IsShown

end Yaml

end Transclusion

------------------------------------------------------------
-- Texts in Double Quotes
------------------------------------------------------------

namespace Transclusion

namespace Yaml

variable {c : Char}

/-
  How a character is written in double quotes.  An escape
  has no more than four characters for each byte of it.
-/
inductive EscapedChar
    (c : Char) : List Char → Prop where
  | plain
      (hWritable : isWritable c = true)
      (hBreak : isBreak c = false)
      (hQuote : c ≠ '"')
      (hSlash : c ≠ '\\') :
      EscapedChar c [c]
  | letter
      {letter : Char}
      (hOf : Escape.ofLetter? letter = some (.char c))
      (hVisible : IsVisible letter) :
      EscapedChar c ['\\', letter]
  | code
      {letter : Char}
      {width : Nat}
      (hOf : Escape.ofLetter? letter = some (.code width))
      (hVisible : IsVisible letter)
      (hSome : 0 < width)
      (hWidth : c.toNat < Nat.pow 16 width)
      (hBytes : width + 2 ≤ 4 * c.utf8Size) :
      EscapedChar c
        ('\\' :: letter ::
          Text.padLeft width '0'
            ((Text.hexDigits c.toNat).map Char.toUpper))

/- A character behind a code takes up more bytes. -/
theorem utf8Size_of_toNat
    (c : Char) :
    (0xFF < c.toNat → 2 ≤ c.utf8Size) ∧
      (0xFFFF < c.toNat → 4 ≤ c.utf8Size) := by
  have hCode : c.val.toNat = c.toNat := rfl
  unfold Char.utf8Size
  simp only [UInt32.le_iff_toNat_le, hCode,
    UInt32.toNat_ofNatLT]
  constructor
  · intro hLess
    split
    · omega
    split
    · exact Nat.le_refl 2
    split
    · exact Nat.le_succ 2
    · exact Nat.le_of_ble_eq_true rfl
  · intro hLess
    rw [if_neg (by omega), if_neg (by omega),
      if_neg (by omega)]

/- Every character is written in one of these ways. -/
theorem escapedChar_escaped
    (c : Char) :
    EscapedChar c (escapedChar c) := by
  have hLetter {letter : Char} {code : Nat}
      (hCode : c.toNat = code)
      (hOf :
        Escape.ofLetter? letter =
          some (.char (Char.ofNat code)))
      (hVisible : IsVisible letter) :
      EscapedChar c ['\\', letter] := by
    rw [← hCode, Char.ofNat_toNat] at hOf
    exact .letter hOf hVisible
  have hBound : c.toNat < 0x110000 := by
    rcases c.valid with hLow | hHigh
    · exact Nat.lt_trans hLow (by decide)
    · exact hHigh.2
  unfold escapedChar
  split
  · rename_i hPlain
    simp only [Bool.and_eq_true, Bool.not_eq_true',
      bne_iff_ne, ne_eq] at hPlain
    rcases hPlain with
      ⟨⟨⟨hWritable, hBreak⟩, hQuote⟩, hSlash⟩
    exact .plain hWritable hBreak hQuote hSlash
  split
  · rename_i _ hQuote
    rw [beq_iff_eq] at hQuote
    subst hQuote
    exact .letter rfl (by decide)
  split
  · rename_i _ _ hSlash
    rw [beq_iff_eq] at hSlash
    subst hSlash
    exact .letter rfl (by decide)
  split
  case h_13 =>
    have hPositive := c.utf8Size_pos
    have hSize := utf8Size_of_toNat c
    split
    · rename_i hByte
      exact
        .code rfl (by decide) (by decide)
          (Nat.lt_succ_of_le hByte) (by omega)
    split
    · rename_i hLarge hShort
      exact
        .code rfl (by decide) (by decide)
          (Nat.lt_succ_of_le hShort) (by omega)
    · exact
        .code rfl (by decide) (by decide)
          (Nat.lt_trans hBound (by decide)) (by omega)
  all_goals
    rename_i hCode
    exact hLetter hCode rfl (by decide)

/- A character other than a space is escaped, or it need not. -/
theorem quotedChar_escapedChar
    (hSpace : c ≠ ' ') :
    QuotedChar false c (escapedChar c) := by
  have hEscaped := escapedChar_escaped c
  generalize escapedChar c = written at hEscaped ⊢
  cases hEscaped with
  | plain hWritable hBreak hQuote hSlash =>
      exact
        .plain (isGap_of_isWritable hWritable hSpace hBreak)
          hQuote fun _ => hSlash
  | letter hOf hVisible =>
      exact .letter rfl hOf (isBreak_of_isVisible hVisible)
  | code hOf hVisible hSome hWidth hBytes =>
      exact
        quotedChar_code hOf (isBreak_of_isVisible hVisible)
          hSome hWidth (by decide)

/- What is written may occur in texts. -/
theorem EscapedChar.isAllowed_of_mem
    {written : List Char}
    (hEscaped : EscapedChar c written) :
    ∀ d ∈ written, isAllowed d = true := by
  cases hEscaped with
  | plain hWritable hBreak hQuote hSlash =>
      exact
        List.forall_mem_singleton.mpr
          (isAllowed_of_isWritable hWritable)
  | letter hOf hVisible =>
      rw [List.forall_mem_cons, List.forall_mem_singleton]
      exact ⟨rfl, isAllowed_of_isVisible hVisible⟩
  | code hOf hVisible hSome hWidth hBytes =>
      rw [List.forall_mem_cons, List.forall_mem_cons]
      refine
        ⟨rfl, isAllowed_of_isVisible hVisible, fun d hMem => ?_⟩
      exact
        isAllowed_of_isVisible
          (isVisible_of_mem_padLeft (by decide) _ _ d hMem)

/- It takes up no more than four times as many bytes. -/
theorem EscapedChar.byteCount_le
    {written : List Char}
    (hEscaped : EscapedChar c written) :
    byteCount written ≤ 4 * c.utf8Size := by
  have hPositive := c.utf8Size_pos
  cases hEscaped with
  | plain hWritable hBreak hQuote hSlash =>
      rw [byteCount_cons]
      change _ + 0 ≤ _
      omega
  | letter hOf hVisible =>
      have hAll : ∀ d ∈ ['\\', _], IsVisible d :=
        List.forall_mem_cons.mpr
          ⟨by decide, List.forall_mem_singleton.mpr hVisible⟩
      rw [byteCount_of_isVisible hAll]
      change 2 ≤ _
      omega
  | code hOf hVisible hSome hWidth hBytes =>
      rw [byteCount_of_isVisible, List.length_cons,
        List.length_cons,
        length_padLeft_hexDigits hSome hWidth]
      · omega
      · rw [List.forall_mem_cons, List.forall_mem_cons]
        exact
          ⟨by decide, hVisible,
            isVisible_of_mem_padLeft (by decide) _ _⟩

/- A text is written between double quotes. -/
theorem quotedText_escaped
    (text : List Char) :
    QuotedText false text (text.flatMap escapedChar) :=
  .flatMap (fun _ _ => quotedChar_escapedChar) rfl

/- It is written within a line. -/
theorem isBreak_of_mem_escaped
    {text : List Char} :
    ∀ d ∈ text.flatMap escapedChar, isBreak d = false := by
  intro d hMem
  rcases List.mem_flatMap.mp hMem with ⟨c, _, hWritten⟩
  by_cases hSpace : c = ' '
  · subst hSpace
    rw [List.mem_singleton.mp hWritten]
    rfl
  · exact
      (quotedChar_escapedChar hSpace).isBreak_of_mem d hWritten

end Yaml

end Transclusion

------------------------------------------------------------
-- Texts in Single Quotes
------------------------------------------------------------

namespace Transclusion

namespace Yaml

/- One character in single quotes. -/
def doubledChar
    (c : Char) : List Char :=
  if c = '\'' then ['\'', '\''] else [c]

variable {single : Bool}
variable {text rest written more gap breaks : List Char}
variable {c : Char}

/- A character that is no gap. -/
theorem quotedChar_doubledChar
    (hGap : isGap (some c) = false) :
    QuotedChar true c (doubledChar c) := by
  unfold doubledChar
  split
  · rename_i hQuote
    subst hQuote
    exact .doubled rfl
  · rename_i hQuote
    exact .plain hGap hQuote Bool.noConfusion

/- A text goes on behind a gap, if it does not end in one. -/
theorem QuotedText.append
    (hText : QuotedText single text written)
    (hEnds : written.getLast? ≠ some ' ')
    (hGap : ∀ c ∈ gap, isSpacing c = true)
    (hMore :
      ∀ c ∈ (more ++ [quoteChar single]).head?,
        isGap (some c) = false)
    (hRest : QuotedText single rest more) :
    QuotedText single
      (text ++ gapText (gap ++ [' ']) ++ rest)
      (written ++ (gap ++ [' ']) ++ more) := by
  induction hText with
  | word hWord => exact .gap hWord hGap hMore hRest
  | @gap text written inner others left hWord hInner hLeft _ ih =>
      have hSome : left ≠ [] := by
        rintro rfl
        apply hEnds
        rw [List.append_nil, ← List.append_assoc,
          List.getLast?_concat]
      have hHead :
          ∀ c ∈ (left ++ (gap ++ [' ']) ++ more ++
              [quoteChar single]).head?,
            isGap (some c) = false := by
        rcases List.exists_cons_of_ne_nil hSome with
          ⟨first, tail, rfl⟩
        exact hLeft
      rw [List.getLast?_append_of_ne_nil _ hSome] at hEnds
      have hWhole := QuotedText.gap hWord hInner hHead (ih hEnds)
      simpa only [List.append_assoc] using hWhole

/- Line breaks that keep their form stand for themselves. -/
theorem gapText_breaks
    (hBreaks : ∀ c ∈ breaks, KeepsBreak c ∧ c ≠ '\n')
    (hSome : breaks ≠ [])
    (count : Nat) :
    gapText (breaks ++ List.replicate count ' ') = breaks := by
  have hSpaces (fold : Fold) (hBroken : fold.broken = true) :
      (List.replicate count ' ').foldl Fold.step fold =
        fold := by
    induction count with
    | zero => rfl
    | succ count ih =>
        rw [List.replicate_succ, List.foldl_cons,
          Fold.step_space, if_pos hBroken, ih]
  have hMore (breaks : List Char) (fold : Fold)
      (hBreaks : ∀ c ∈ breaks, KeepsBreak c ∧ c ≠ '\n')
      (hBroken : fold.broken = true) :
      breaks.foldl Fold.step fold =
        { fold with more := fold.more ++ breaks } := by
    induction breaks generalizing fold with
    | nil => rw [List.append_nil, List.foldl_nil]
    | cons c breaks ih =>
        rw [List.forall_mem_cons] at hBreaks
        rw [List.foldl_cons, Fold.step_break hBreaks.1.1.1,
          if_pos hBroken, hBreaks.1.1.2,
          ih _ hBreaks.2 (by exact hBroken)]
        simp
  rcases List.exists_cons_of_ne_nil hSome with
    ⟨first, others, rfl⟩
  rw [List.forall_mem_cons] at hBreaks
  have hFirst : ¬ [first] = ['\n'] := by
    intro hEq
    exact hBreaks.1.2 (List.cons.inj hEq).1
  unfold gapText
  rw [List.foldl_append, List.foldl_cons,
    Fold.step_break hBreaks.1.1.1, if_neg (by simp),
    hBreaks.1.1.2, hMore _ _ hBreaks.2 rfl, hSpaces _ rfl]
  unfold Fold.text
  simp [hFirst]

/- A character other than a quote is written as it is. -/
theorem doubledChar_eq
    (hQuote : c ≠ '\'') :
    doubledChar c = [c] :=
  if_neg hQuote

/- A doubled character begins with itself. -/
theorem exists_doubledChar
    (c : Char) :
    ∃ tail, doubledChar c = c :: tail := by
  unfold doubledChar
  split
  · rename_i hQuote
    exact ⟨_, by rw [hQuote]⟩
  · exact ⟨_, rfl⟩

/- It ends with itself. -/
theorem getLast?_flatMap_doubledChar
    (text : List Char) :
    (text.flatMap doubledChar).getLast? = text.getLast? := by
  rcases List.eq_nil_or_concat text with
    rfl | ⟨start, last, rfl⟩
  · rfl
  · have hLast : (doubledChar last).getLast? = some last := by
      unfold doubledChar
      split
      · rename_i hQuote
        rw [hQuote]
        rfl
      · rfl
    have hSome : doubledChar last ≠ [] := by
      rcases exists_doubledChar last with ⟨tail, hTail⟩
      rw [hTail]
      exact List.cons_ne_nil last tail
    rw [List.concat_eq_append, List.flatMap_append,
      List.flatMap_singleton,
      List.getLast?_append_of_ne_nil _ hSome, hLast,
      List.getLast?_concat]

/- Doubling quotes breaks no line. -/
theorem isBreak_of_mem_doubled
    {line : List Char}
    (hLine : ∀ c ∈ line, isBreak c = false) :
    ∀ d ∈ line.flatMap doubledChar, isBreak d = false := by
  intro d hMem
  rcases List.mem_flatMap.mp hMem with ⟨c, hChar, hWritten⟩
  unfold doubledChar at hWritten
  split at hWritten
  · have hQuote : d = '\'' := by simpa using hWritten
    rw [hQuote]
    rfl
  · rw [List.mem_singleton.mp hWritten]
    exact hLine c hChar

/-
  A text that can stand in single quotes: there are no line
  feeds in it, and no spaces beside line breaks.
-/
structure IsQuotable
    (text : List Char) : Prop where
  writable : ∀ c ∈ text, isWritable c = true
  feed : '\n' ∉ text
  breakSpace : hasPair isBreak (· == ' ') text = false
  spaceBreak : hasPair (· == ' ') isBreak text = false

namespace IsQuotable

/- A line of the text. -/
theorem quotedText_line
    {line : List Char}
    (hWritable : ∀ c ∈ line, isWritable c = true)
    (hLine : ∀ c ∈ line, isBreak c = false) :
    QuotedText true line (line.flatMap doubledChar) :=
  .flatMap
    (fun c hMem hSpace =>
      quotedChar_doubledChar
        (isGap_of_isWritable (hWritable c hMem) hSpace
          (hLine c hMem)))
    rfl

/- The rest of the text can be quoted, too. -/
theorem of_append
    {before : List Char}
    (hQuotable : IsQuotable (before ++ text)) :
    IsQuotable text :=
  ⟨fun c hMem =>
      hQuotable.writable c (List.mem_append_right _ hMem),
    fun hMem => hQuotable.feed (List.mem_append_right _ hMem),
    hasPair_of_append hQuotable.breakSpace,
    hasPair_of_append hQuotable.spaceBreak⟩

end IsQuotable

/- Its line breaks stand for themselves. -/
theorem IsQuotable.keepsBreak_of_mem
    {line breaks lines : List Char}
    (hQuotable : IsQuotable (line ++ (breaks ++ lines)))
    (hBreaks : ∀ c ∈ breaks, isBreak c = true) :
    ∀ c ∈ breaks, KeepsBreak c ∧ c ≠ '\n' := by
  intro c hMem
  have hIn : c ∈ line ++ (breaks ++ lines) := by
    simp [hMem]
  refine
    ⟨keepsBreak_of_isWritable (hQuotable.writable c hIn)
      (hBreaks c hMem), ?_⟩
  rintro rfl
  exact hQuotable.feed hIn

/- A line in front of a break does not end in a space. -/
theorem IsQuotable.getLast?_doubled
    {line rest : List Char}
    (hQuotable : IsQuotable (line ++ c :: rest))
    (hBreak : isBreak c = true) :
    (line.flatMap doubledChar).getLast? ≠ some ' ' := by
  rw [getLast?_flatMap_doubledChar]
  intro hSpace
  rcases List.eq_nil_or_concat line with
    rfl | ⟨start, last, rfl⟩
  · cases hSpace
  · rw [List.concat_eq_append, List.getLast?_concat] at hSpace
    cases hSpace
    have hNone :=
      hasPair_eq_false_iff.mp hQuotable.spaceBreak start ' ' c
        rest (by simp) rfl
    rw [hBreak] at hNone
    cases hNone

/- What stands behind line breaks is no gap. -/
theorem IsQuotable.isGap_behind
    {line lines : List Char}
    (hQuotable : IsQuotable (line ++ (c :: breaks ++ lines)))
    (hBreaks : ∀ d ∈ c :: breaks, isBreak d = true)
    (hLines : ∀ d ∈ lines.head?, isBreak d = false) :
    ∀ d ∈ (lines.flatMap doubledChar ++ ['\'']).head?,
      isGap (some d) = false := by
  intro d hMem
  cases lines with
  | nil =>
      cases hMem
      rfl
  | cons e more =>
      rcases exists_doubledChar e with ⟨tail, hTail⟩
      rw [List.flatMap_cons, hTail] at hMem
      cases hMem
      have hWritable : isWritable d = true :=
        hQuotable.writable d (by simp)
      apply isGap_of_isWritable hWritable _ (hLines d rfl)
      rintro rfl
      rcases List.eq_nil_or_concat (c :: breaks) with
        hNil | ⟨start, last, hLast⟩
      · cases hNil
      · rw [List.concat_eq_append] at hLast
        have hBreak := hBreaks last (by rw [hLast]; simp)
        have hNone :=
          hasPair_eq_false_iff.mp hQuotable.breakSpace
            (line ++ start) last ' ' more
            (by rw [hLast]; simp) hBreak
        cases hNone

/- Breaks that keep their form are a gap. -/
theorem KeepsBreak.isSpacing
    (hBreak : KeepsBreak c) :
    isSpacing c = true := by
  unfold Yaml.isSpacing
  rw [hBreak.1]
  simpa using Or.inr hBreak.ne_return

/- Line breaks are not doubled. -/
theorem flatMap_doubledChar_breaks
    {breaks : List Char}
    (hBreaks : ∀ c ∈ breaks, isBreak c = true) :
    breaks.flatMap doubledChar = breaks := by
  have hAll :
      breaks.flatMap doubledChar = breaks.flatMap ([·]) := by
    apply List.flatMap_congr
    intro c hMem
    apply doubledChar_eq
    rintro rfl
    cases hBreaks _ hMem
  rw [hAll, List.flatMap_singleton']

/- Between quotes a line and breaks are written in front. -/
theorem indentLines_quoted
    {line breaks lines : List Char}
    (hLine : ∀ d ∈ line, isBreak d = false)
    (hBreaks : ∀ d ∈ c :: breaks, isBreak d = true)
    (hBehind :
      ∀ d ∈ (lines.flatMap doubledChar ++ ['\'']).head?,
        isGap (some d) = false)
    (indent : Nat) :
    indentLines indent false
        ((line ++ (c :: breaks ++ lines)).flatMap doubledChar ++
          ['\'']) =
      line.flatMap doubledChar ++
        (c :: breaks ++
          (List.replicate indent ' ' ++
            indentLines indent false
              (lines.flatMap doubledChar ++ ['\'']))) := by
  have hSame := flatMap_doubledChar_breaks hBreaks
  rw [List.forall_mem_cons] at hBreaks
  rw [List.flatMap_append, List.flatMap_append, hSame,
    List.append_assoc, List.append_assoc]
  cases hCons : lines.flatMap doubledChar ++ ['\''] with
  | nil => exact absurd hCons (by simp)
  | cons first others =>
      have hNone := hBehind first (by rw [hCons]; rfl)
      exact
        indentLines_more (isBreak_of_mem_doubled hLine)
          hBreaks.1 hBreaks.2 (Bool.or_eq_false_iff.mp hNone).2

/-
  A text in single quotes is read as itself: the indentation
  behind its breaks is left out again.
-/
theorem IsQuotable.exists_quoted
    {indent : Nat}
    (hQuotable : IsQuotable text)
    (hIndent : indent ≠ 0) :
    ∃ content,
      indentLines indent false
            (text.flatMap doubledChar ++ ['\'']) =
          content ++ ['\''] ∧
        QuotedText true text content := by
  induction hLength : text.length using Nat.strongRecOn
    generalizing text with
  | ind length ih =>
      rcases split_line text with
        ⟨line, rest, rfl, hLine, hRest⟩
      rcases split_breaks rest with
        ⟨breaks, lines, rfl, hBreaks, hLines⟩
      have hWritable := hQuotable.writable
      simp only [List.forall_mem_append] at hWritable
      have hDoubled := isBreak_of_mem_doubled hLine
      have hLineText :=
        IsQuotable.quotedText_line hWritable.1 hLine
      cases breaks with
      | nil =>
          cases lines with
          | cons d more =>
              have hNot := hLines d rfl
              rw [hRest d rfl] at hNot
              cases hNot
          | nil =>
              refine ⟨line.flatMap doubledChar, ?_, ?_⟩
              · rw [List.append_nil, List.append_nil,
                  indentLines_append hDoubled]
                rfl
              · rw [List.append_nil, List.append_nil]
                exact hLineText
      | cons b breaks =>
          have hAfter : IsQuotable lines :=
            hQuotable.of_append.of_append
          have hShorter : lines.length < length := by
            simp only [List.length_append, List.length_cons]
              at hLength
            omega
          rcases ih lines.length hShorter hAfter rfl with
            ⟨content, hContent, hText⟩
          -- The last space ends the gap in front of the content.
          have hSpaces :
              List.replicate indent ' ' =
                List.replicate (indent - 1) ' ' ++ [' '] := by
            rw [← List.replicate_succ']
            congr 1
            omega
          have hKeeps := hQuotable.keepsBreak_of_mem hBreaks
          have hGap :
              ∀ c ∈ (b :: breaks) ++
                  List.replicate (indent - 1) ' ',
                isSpacing c = true := by
            rw [List.forall_mem_append]
            refine ⟨fun c hMem => ?_, fun c hMem => ?_⟩
            · exact (hKeeps c hMem).1.isSpacing
            · rw [List.eq_of_mem_replicate hMem]
              rfl
          have hBehind := hQuotable.isGap_behind hBreaks hLines
          have hWhole :=
            hLineText.append
              (hQuotable.getLast?_doubled (hBreaks b (by simp)))
              hGap
              (by
                rw [show quoteChar true = '\'' from rfl,
                  ← hContent, head?_indentLines]
                exact hBehind)
              hText
          rw [List.append_assoc (b :: breaks), ← hSpaces,
            gapText_breaks hKeeps (List.cons_ne_nil b breaks),
            List.append_assoc line] at hWhole
          refine ⟨_, ?_, hWhole⟩
          rw [indentLines_quoted hLine hBreaks hBehind, hContent]
          simp only [List.append_assoc]

end Yaml

end Transclusion
