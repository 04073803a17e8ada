import Transclusion.Proofs.Yaml.Cursor

/-
  Texts between quotes are read as what they were written
  for.

  Key definitions include:
    * `Transclusion.Yaml.QuotedChar`
    * `Transclusion.Yaml.QuotedWord`
    * `Transclusion.Yaml.QuotedText`

  Key theorems include:
    * `Transclusion.Yaml.Scan.quotedScalar_text`

  A text in quotes is made of words, each character in its
  own way, and of gaps of blanks and line breaks.
-/

------------------------------------------------------------
-- Characters and Words
------------------------------------------------------------

namespace Transclusion

namespace Yaml

/- The quote around a text. -/
def quoteChar
    (single : Bool) : Char :=
  if single then '\'' else '"'

/- A quote is no gap. -/
theorem isGap_quoteChar
    (single : Bool) :
    isGap (some (quoteChar single)) = false := by
  cases single <;> rfl

/- How a character of a word is written in quotes. -/
inductive QuotedChar
    (single : Bool) : Char → List Char → Prop where
  | plain
      {c : Char}
      (hGap : isGap (some c) = false)
      (hQuote : c ≠ quoteChar single)
      (hEscape : single = false → c ≠ '\\') :
      QuotedChar single c [c]
  | doubled
      (hSingle : single = true) :
      QuotedChar single '\'' ['\'', '\'']
  | letter
      {letter c : Char}
      (hDouble : single = false)
      (hLetter : Escape.ofLetter? letter = some (.char c))
      (hLine : isBreak letter = false) :
      QuotedChar single c ['\\', letter]
  | code
      {letter c : Char}
      {digits : List Char}
      {values : List Nat}
      (hDouble : single = false)
      (hLetter :
        Escape.ofLetter? letter = some (.code digits.length))
      (hLine : isBreak letter = false)
      (hDigitsLine : ∀ d ∈ digits, isBreak d = false)
      (hDigits : digits.mapM hexValue? = some values)
      (hCode :
        values.foldl (fun n d => n * 16 + d) 0 = c.toNat) :
      QuotedChar single c ('\\' :: letter :: digits)

/- What a character is written by begins with no gap. -/
theorem QuotedChar.exists_cons
    {single : Bool}
    {c : Char}
    {written : List Char}
    (hChar : QuotedChar single c written) :
    ∃ first tail,
      written = first :: tail ∧ isGap (some first) = false := by
  cases hChar with
  | plain hGap hQuote hEscape => exact ⟨_, _, rfl, hGap⟩
  | doubled hSingle => exact ⟨_, _, rfl, rfl⟩
  | letter hDouble hLetter hLine => exact ⟨_, _, rfl, rfl⟩
  | code hDouble hLetter hLine hDigitsLine hDigits hCode =>
      exact ⟨_, _, rfl, rfl⟩

/- A character is written within a line. -/
theorem QuotedChar.isBreak_of_mem
    {single : Bool}
    {c : Char}
    {written : List Char}
    (hChar : QuotedChar single c written) :
    ∀ d ∈ written, isBreak d = false := by
  cases hChar with
  | plain hGap hQuote hEscape =>
      intro d hMem
      rw [List.mem_singleton.mp hMem]
      exact (Bool.or_eq_false_iff.mp hGap).2
  | doubled hSingle =>
      exact List.forall_iff_forall_mem.mp (by decide)
  | letter hDouble hLetter hLine => simpa using ⟨rfl, hLine⟩
  | code hDouble hLetter hLine hDigitsLine hDigits hCode =>
      simp only [List.forall_mem_cons]
      exact ⟨rfl, hLine, hDigitsLine⟩

/- How a text without gaps is written in quotes. -/
inductive QuotedWord
    (single : Bool) : List Char → List Char → Prop where
  | nil : QuotedWord single [] []
  | cons
      {c : Char}
      {rest written more : List Char}
      (hChar : QuotedChar single c written)
      (hRest : QuotedWord single rest more) :
      QuotedWord single (c :: rest) (written ++ more)

/- Whether a word ends before what is left. -/
def EndsWord
    (single : Bool) : List Char → Prop
  | [] => False
  | c :: rest =>
      isGap (some c) = true ∨
        c = quoteChar single ∧
          (single = true → rest.head? ≠ some '\'')

namespace Scan

variable {rest text written : List Char}
variable {size : Nat}
variable {mark start : Mark}
variable {single : Bool}

/- A word ends at a gap or at the closing quote. -/
theorem quotedChars_end
    (hEnds : EndsWord single rest)
    (fuel : Nat) :
    quotedChars single start (fuel + 1)
        (Cursor.on rest size mark) =
      .ok (([], false), Cursor.on rest size mark) := by
  cases rest with
  | nil => cases hEnds
  | cons c more =>
      rw [quotedChars, bind_ok peek_on,
        bind_ok (peekAt_on 1)]
      simp only [List.head?_cons]
      rcases hEnds with hGap | ⟨rfl, hSingle⟩
      · change (isWhite c || isBreak c) = true at hGap
        rw [if_pos hGap, pure_ok]
      · cases single with
        | false => simp [quoteChar, isWhite, isBreak]
        | true =>
            have hSingle := hSingle rfl
            rw [List.head?_eq_getElem?] at hSingle
            simp [quoteChar, isWhite, isBreak, hSingle]

/- A character that stands for itself. -/
theorem quotedChars_plain
    {c : Char}
    {fuel : Nat}
    {result : List Char × Bool}
    {after : Cursor}
    (hGap : isGap (some c) = false)
    (hQuote : c ≠ quoteChar single)
    (hEscape : single = false → c ≠ '\\')
    (hRest :
      quotedChars single start fuel
          (Cursor.on rest size (mark.step c)) =
        .ok (result, after)) :
    quotedChars single start (fuel + 1)
        (Cursor.on (c :: rest) size mark) =
      .ok ((c :: result.1, result.2), after) := by
  change (isWhite c || isBreak c) = false at hGap
  have hLine := (Bool.or_eq_false_iff.mp hGap).2
  have hQuoted : (c == quoteChar single) = false := by
    simpa using hQuote
  have hDoubled :
      (single && c == '\'') = false := by
    cases single with
    | false => rfl
    | true => simpa [quoteChar] using hQuote
  have hEscaped : (!single && c == '\\') = false := by
    cases single with
    | false => simpa using hEscape rfl
    | true => rfl
  unfold quoteChar at hQuoted
  rw [quotedChars, bind_ok peek_on, bind_ok (peekAt_on 1)]
  simp only [List.head?_cons, hGap, hDoubled, hQuoted,
    hEscaped, Bool.false_and, Bool.false_eq_true, if_false]
  rw [bind_ok (skip_one hLine), bind_ok pure_ok,
    bind_ok (ensure_on 2), bind_ok hRest, pure_ok]

/- A quote that stands for itself because it is doubled. -/
theorem quotedChars_doubled
    {fuel : Nat}
    {result : List Char × Bool}
    {after : Cursor}
    (hRest :
      quotedChars true start fuel
          (Cursor.on rest size (mark.after ['\'', '\''])) =
        .ok (result, after)) :
    quotedChars true start (fuel + 1)
        (Cursor.on ('\'' :: '\'' :: rest) size mark) =
      .ok (('\'' :: result.1, result.2), after) := by
  rw [quotedChars, bind_ok peek_on, bind_ok (peekAt_on 1)]
  simp only [List.head?_cons]
  rw [if_neg (by decide), if_pos (by simp),
    bind_ok (skip_two (by decide) (by decide)),
    bind_ok (ensure_on 2), bind_ok hRest, pure_ok]

/- A character that an escape stands for. -/
theorem quotedChars_escaped
    {c letter : Char}
    {more : List Char}
    {fuel : Nat}
    {result : List Char × Bool}
    {behind : Mark}
    {after : Cursor}
    (hLine : isBreak letter = false)
    (hEscape :
      escaped start
          (Cursor.on ('\\' :: letter :: rest) size mark) =
        .ok (c, Cursor.on more size behind))
    (hRest :
      quotedChars false start fuel
          (Cursor.on more size behind) =
        .ok (result, after)) :
    quotedChars false start (fuel + 1)
        (Cursor.on ('\\' :: letter :: rest) size mark) =
      .ok ((c :: result.1, result.2), after) := by
  rw [quotedChars, bind_ok peek_on, bind_ok (peekAt_on 1)]
  simp only [List.head?_cons]
  rw [if_neg (by decide), if_neg (by simp),
    if_neg (by decide), if_neg (by simp [hLine]),
    if_pos (by simp), bind_ok hEscape, bind_ok (ensure_on 2),
    bind_ok hRest, pure_ok]

/- A letter behind a backslash. -/
theorem escaped_letter
    {c letter : Char}
    (hLetter : Escape.ofLetter? letter = some (.char c))
    (hLine : isBreak letter = false) :
    escaped start
        (Cursor.on ('\\' :: letter :: rest) size mark) =
      .ok (c,
        Cursor.on rest size (mark.after ['\\', letter])) := by
  have hNext :
      (('\\' :: letter :: rest)[1]?).bind Escape.ofLetter? =
        some (.char c) := by
    simpa using hLetter
  rw [escaped, bind_ok (peekAt_on 1), hNext]
  simp only
  rw [bind_ok (skip_two (by decide) hLine), pure_ok]

/- A list that is read item by item keeps its length. -/
theorem length_of_mapM
    {α β : Type}
    {read : α → Option β}
    {items : List α}
    {results : List β}
    (hRead : items.mapM read = some results) :
    results.length = items.length := by
  induction items generalizing results with
  | nil =>
      rw [List.mapM_nil] at hRead
      cases hRead
      rfl
  | cons item rest ih =>
      rw [List.mapM_cons] at hRead
      rcases Option.bind_eq_some_iff.mp hRead with
        ⟨result, _, hMore⟩
      rcases Option.bind_eq_some_iff.mp hMore with
        ⟨more, hRest, hEq⟩
      cases hEq
      rw [List.length_cons, List.length_cons, ih hRest]

/- The hexadecimal digits of a code are its value. -/
theorem hexAhead_append
    {digits : List Char}
    {values : List Nat}
    (hDigits : digits.mapM hexValue? = some values) :
    hexAhead start digits.length
        (Cursor.on (digits ++ rest) size mark) =
      .ok (values.foldl (fun n d => n * 16 + d) 0,
        Cursor.on (digits ++ rest) size mark) := by
  have hLength := length_of_mapM hDigits
  have hTake :
      (digits ++ rest).take digits.length = digits :=
    List.take_left
  rw [hexAhead, bind_ok (ensure_on _), bind_ok get_ok]
  unfold Cursor.on
  simp only [hTake, hDigits]
  rw [if_neg (by omega)]
  rfl

/- A code point in hexadecimal digits behind a backslash. -/
theorem escaped_code
    {c letter : Char}
    {digits : List Char}
    {values : List Nat}
    (hLetter :
      Escape.ofLetter? letter = some (.code digits.length))
    (hLine : isBreak letter = false)
    (hDigitsLine : ∀ d ∈ digits, isBreak d = false)
    (hDigits : digits.mapM hexValue? = some values)
    (hCode :
      values.foldl (fun n d => n * 16 + d) 0 = c.toNat) :
    escaped start
        (Cursor.on ('\\' :: letter :: (digits ++ rest)) size
          mark) =
      .ok (c,
        Cursor.on rest size
          (mark.after ('\\' :: letter :: digits))) := by
  have hNext :
      (('\\' :: letter :: (digits ++ rest))[1]?).bind
          Escape.ofLetter? =
        some (.code digits.length) := by
    simpa using hLetter
  have hAfter :
      mark.after ('\\' :: letter :: digits) =
        (mark.after ['\\', letter]).after digits :=
    Mark.after_append ['\\', letter] digits
  have hValid :
      ((0xD800 ≤ c.toNat && c.toNat ≤ 0xDFFF) ||
        decide (0x10FFFF < c.toNat)) = false := by
    have hChar : c.toNat.isValidChar := c.valid
    unfold Nat.isValidChar at hChar
    rw [Bool.or_eq_false_iff, Bool.and_eq_false_iff]
    simp only [decide_eq_false_iff_not]
    omega
  rw [escaped, bind_ok (peekAt_on 1), hNext]
  simp only
  rw [bind_ok (skip_two (by decide) hLine),
    bind_ok (hexAhead_append hDigits), hCode,
    if_neg (Bool.eq_false_iff.mp hValid),
    bind_ok (skip_append hDigitsLine), pure_ok, hAfter,
    Char.ofNat_toNat]

/- A word is read up to its end. -/
theorem quotedChars_word
    (hWord : QuotedWord single text written)
    (hEnds : EndsWord single rest)
    {fuel : Nat}
    (hFuel : written.length < fuel) :
    quotedChars single start fuel
        (Cursor.on (written ++ rest) size mark) =
      .ok ((text, false),
        Cursor.on rest size (mark.after written)) := by
  induction hWord generalizing fuel mark with
  | nil =>
      rcases Nat.exists_eq_add_one.mpr
          (Nat.zero_lt_of_lt hFuel) with ⟨fuel, rfl⟩
      exact quotedChars_end hEnds fuel
  | @cons c text written more hChar hRest ih =>
      rw [List.length_append] at hFuel
      have hSome : 0 < written.length := by
        rcases hChar.exists_cons with ⟨first, tail, rfl, _⟩
        exact Nat.succ_pos _
      rcases Nat.exists_eq_add_one.mpr
          (Nat.zero_lt_of_lt hFuel) with ⟨fuel, rfl⟩
      have hMore (mark : Mark) :
          quotedChars single start fuel
              (Cursor.on (more ++ rest) size mark) =
            .ok ((text, false),
              Cursor.on rest size (mark.after more)) :=
        ih (by omega)
      rw [List.append_assoc, Mark.after_append]
      cases hChar with
      | plain hGap hQuote hEscape =>
          exact
            quotedChars_plain hGap hQuote hEscape (hMore _)
      | doubled hSingle =>
          subst hSingle
          exact quotedChars_doubled (hMore _)
      | letter hDouble hLetter hLine =>
          subst hDouble
          exact
            quotedChars_escaped hLine
              (escaped_letter hLetter hLine) (hMore _)
      | code hDouble hLetter hLine hDigitsLine hDigits hCode =>
          subst hDouble
          rw [List.cons_append, List.cons_append]
          exact
            quotedChars_escaped hLine
              (escaped_code hLetter hLine hDigitsLine hDigits
                hCode) (hMore _)

end Scan

end Yaml

end Transclusion

------------------------------------------------------------
-- Words and Gaps
------------------------------------------------------------

namespace Transclusion

namespace Yaml

/- What a gap between words stands for. -/
def gapText
    (gap : List Char) : List Char :=
  (gap.foldl Fold.step {}).text

/- Spaces stand for themselves. -/
theorem gapText_spaces
    (count : Nat) :
    gapText (List.replicate count ' ') =
      List.replicate count ' ' := by
  unfold gapText
  rw [Fold.foldl_step_spaces count rfl]
  rfl

/-
  How a text is written in quotes: words with gaps between
  them, each of which ends in a space.
-/
inductive QuotedText
    (single : Bool) : List Char → List Char → Prop where
  | word
      {text written : List Char}
      (hWord : QuotedWord single text written) :
      QuotedText single text written
  | gap
      {text written gap rest more : List Char}
      (hWord : QuotedWord single text written)
      (hGap : ∀ c ∈ gap, isSpacing c = true)
      (hMore :
        ∀ c ∈ (more ++ [quoteChar single]).head?,
          isGap (some c) = false)
      (hRest : QuotedText single rest more) :
      QuotedText single
        (text ++ gapText (gap ++ [' ']) ++ rest)
        (written ++ (gap ++ [' ']) ++ more)

section

variable {single : Bool}
variable {text : List Char}
variable {written : Char → List Char}

/- Characters written one after another are a word. -/
theorem QuotedWord.flatMap
    (hChars : ∀ c ∈ text, QuotedChar single c (written c)) :
    QuotedWord single text (text.flatMap written) := by
  induction text with
  | nil => exact .nil
  | cons c rest ih =>
      rw [List.forall_mem_cons] at hChars
      rw [List.flatMap_cons]
      exact .cons hChars.1 (ih hChars.2)

/-
  Characters written one after another are a text, if spaces
  stand for themselves.
-/
theorem QuotedText.flatMap
    (hChars :
      ∀ c ∈ text, c ≠ ' ' → QuotedChar single c (written c))
    (hSpace : written ' ' = [' ']) :
    QuotedText single text (text.flatMap written) := by
  induction hLength : text.length using Nat.strongRecOn
    generalizing text with
  | ind length ih =>
      rcases split_spaces text with
        hWord | ⟨word, count, more, rfl, hWord, hMore⟩
      · exact
          .word (.flatMap fun c hMem =>
            hChars c hMem (hWord c hMem))
      · rw [List.forall_mem_append, List.forall_mem_append]
          at hChars
        simp only [List.length_append,
          List.length_replicate] at hLength
        have hGap :
            ∀ c ∈ List.replicate count ' ',
              isSpacing c = true := by
          exact List.forall_mem_replicate.mpr (Or.inr rfl)
        have hFirst :
            ∀ c ∈ (more.flatMap written ++
                [quoteChar single]).head?,
              isGap (some c) = false := by
          intro c hMem
          cases more with
          | nil =>
              cases hMem
              exact isGap_quoteChar single
          | cons d rest =>
              rcases (hChars.2 d List.mem_cons_self
                  (fun hEq => hMore (hEq ▸ rfl))).exists_cons
                with ⟨first, tail, hWritten, hNone⟩
              rw [List.flatMap_cons, hWritten] at hMem
              cases hMem
              exact hNone
        have hText :=
          QuotedText.gap
            (.flatMap fun c hMem =>
              hChars.1.1 c hMem (hWord c hMem))
            hGap hFirst
            (ih more.length (by omega) hChars.2 rfl)
        rw [← List.replicate_succ', gapText_spaces] at hText
        rw [List.flatMap_append, List.flatMap_append,
          List.flatMap_replicate, hSpace,
          List.flatten_replicate_singleton]
        exact hText

end

namespace Scan

variable {rest text written : List Char}
variable {size : Nat}
variable {mark start : Mark}
variable {single : Bool}

/- A word is read, and the gap behind it, if it has one. -/
theorem quotedParts_word
    (hWord : QuotedWord single text written)
    (hEnds : EndsWord single rest)
    (hColumn : mark.column ≠ 0)
    (hSize : written.length ≤ size)
    (fuel : Nat) :
    quotedParts single start (fuel + 1)
        (Cursor.on (written ++ rest) size mark) =
      (if rest.head? == some (quoteChar single) then pure text
      else do
        let gap ← fold 0 start (size + 1) {}
        let more ← quotedParts single start fuel
        pure (text ++ gap.text ++ more))
        (Cursor.on rest size (mark.after written)) := by
  have hSome : (written ++ rest).head?.isNone = false := by
    cases written with
    | cons c more => rfl
    | nil =>
        cases rest with
        | cons c more => rfl
        | nil => cases hEnds
  rw [quotedParts, bind_ok (ensure_on 4),
    bind_ok (atDocumentIndicator_on (Or.inl hColumn))]
  simp only [Bool.false_eq_true, if_false]
  rw [bind_ok peek_on, hSome]
  simp only [Bool.false_eq_true, if_false]
  rw [bind_ok (ensure_on 2), bind_ok fuel_on,
    bind_ok
      (quotedChars_word hWord hEnds
        (Nat.lt_succ_of_le hSize))]
  simp only
  rw [bind_ok (ensure_on 1), bind_ok (nextIs_on _)]
  change (if rest.head? == some (quoteChar single) then _ else _ :
    Scan (List Char)) _ = _
  split
  · rfl
  · rw [bind_ok fuel_on]

/- A gap does not begin with the closing quote. -/
theorem head?_gap_ne_quote
    {gap : List Char}
    (hSome : gap ≠ [])
    (hGap : ∀ c ∈ gap, isSpacing c = true) :
    ((gap ++ rest).head? == some (quoteChar single)) =
      false := by
  rcases List.exists_cons_of_ne_nil hSome with
    ⟨first, others, rfl⟩
  have hFirst :=
    isGap_of_isSpacing (hGap first List.mem_cons_self)
  rw [List.cons_append, List.head?_cons, beq_eq_false_iff_ne]
  rintro hEq
  rw [hEq, isGap_quoteChar single] at hFirst
  cases hFirst

/-
  A word is read with the gap behind it and what is read of
  the rest.
-/
theorem quotedParts_gap
    {fuel : Nat}
    {gap others : List Char}
    {after : Cursor}
    (hWord : QuotedWord single text written)
    (hSome : gap ≠ [])
    (hGap : ∀ c ∈ gap, isSpacing c = true)
    (hRest : ∀ c ∈ rest.head?, isGap (some c) = false)
    (hColumn : mark.column ≠ 0)
    (hSize : written.length + gap.length ≤ size)
    (hRead :
      quotedParts single start fuel
          (Cursor.on rest size
            ((mark.after written).after gap)) =
        .ok (others, after)) :
    quotedParts single start (fuel + 1)
        (Cursor.on (written ++ (gap ++ rest)) size mark) =
      .ok (text ++ gapText gap ++ others, after) := by
  have hEnds : EndsWord single (gap ++ rest) := by
    rcases List.exists_cons_of_ne_nil hSome with
      ⟨first, others, rfl⟩
    exact
      Or.inl
        (isGap_of_isSpacing (hGap first List.mem_cons_self))
  rw [quotedParts_word hWord hEnds hColumn (by omega),
    head?_gap_ne_quote hSome hGap,
    if_neg Bool.false_ne_true,
    bind_ok (fold_append hGap hRest 0 (by omega) {}),
    bind_ok hRead, pure_ok]
  rfl

/- The parts of a text are read up to its closing quote. -/
theorem quotedParts_text
    (hText : QuotedText single text written)
    (hAfter : single = true → rest.head? ≠ some '\'')
    (hColumn : mark.column ≠ 0)
    (hSize : written.length ≤ size)
    {fuel : Nat}
    (hFuel : written.length < fuel) :
    quotedParts single start fuel
        (Cursor.on (written ++ quoteChar single :: rest) size
          mark) =
      .ok (text,
        Cursor.on (quoteChar single :: rest) size
          (mark.after written)) := by
  induction hText generalizing mark fuel with
  | @word text written hWord =>
      rcases Nat.exists_eq_add_one.mpr
          (Nat.zero_lt_of_lt hFuel) with ⟨fuel, rfl⟩
      have hEnds :
          EndsWord single (quoteChar single :: rest) :=
        Or.inr ⟨rfl, hAfter⟩
      rw [quotedParts_word hWord hEnds hColumn hSize,
        if_pos (by simp), pure_ok]
  | @gap text written gap others more hWord hGap hMore _ ih =>
      rcases Nat.exists_eq_add_one.mpr
          (Nat.zero_lt_of_lt hFuel) with ⟨fuel, rfl⟩
      simp only [List.length_append, List.length_singleton]
        at hSize hFuel
      have hWhole :
          ∀ c ∈ gap ++ [' '], isSpacing c = true :=
        List.forall_mem_append.mpr
          ⟨hGap, List.forall_mem_singleton.mpr rfl⟩
      have hNext :
          ∀ c ∈ (more ++ quoteChar single :: rest).head?,
            isGap (some c) = false := by
        intro c hMem
        apply hMore c
        cases more <;> exact hMem
      -- The space at the end of the gap moves the column on.
      have hMoved :
          ((mark.after written).after (gap ++ [' '])).column ≠
            0 := by
        rw [Mark.after_append]
        exact Nat.succ_ne_zero _
      rw [List.append_assoc, List.append_assoc,
        Mark.after_append, Mark.after_append]
      exact
        quotedParts_gap hWord
          (List.append_ne_nil_of_right_ne_nil gap
            (List.cons_ne_nil _ _))
          hWhole hNext hColumn
          (by
            rw [List.length_append, List.length_singleton]
            omega)
          (ih hMoved (by omega) (by omega))

/- A scalar in quotes is read as its text. -/
theorem quotedScalar_text
    (hText : QuotedText single text written)
    (hAfter : single = true → rest.head? ≠ some '\'')
    (hSize : written.length ≤ size) :
    quotedScalar single
        (Cursor.on
          (quoteChar single ::
            (written ++ quoteChar single :: rest))
          size mark) =
      .ok
        (⟨.scalar text
            (if single then .singleQuoted else .doubleQuoted),
          mark,
          mark.after
            (quoteChar single ::
              (written ++ [quoteChar single]))⟩,
        Cursor.on rest size
          (mark.after
            (quoteChar single ::
              (written ++ [quoteChar single])))) := by
  have hQuote :=
    (Bool.or_eq_false_iff.mp (isGap_quoteChar single)).2
  have hColumn : (mark.step (quoteChar single)).column ≠ 0 := by
    unfold Mark.step
    rw [if_neg (by simp [hQuote])]
    exact Nat.succ_ne_zero _
  rw [quotedScalar, bind_ok mark_on, bind_ok (skip_one hQuote),
    bind_ok fuel_on,
    bind_ok
      (quotedParts_text hText hAfter hColumn hSize
        (Nat.lt_succ_of_le hSize)),
    bind_ok (skip_one hQuote), bind_ok mark_on, pure_ok,
    Mark.after_cons, Mark.after_append]
  rfl

end Scan

end Yaml

end Transclusion
