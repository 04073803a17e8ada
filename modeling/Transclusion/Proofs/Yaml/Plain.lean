import Transclusion.Proofs.Yaml.Cursor

/-
  Texts without quotes are read as they stand.

  Key definitions include:
    * `Transclusion.Yaml.PlainWord`
    * `Transclusion.Yaml.PlainText`
    * `Transclusion.Yaml.EndsPlain`

  Key theorems include:
    * `Transclusion.Yaml.Scan.plainScalar_text`

  A text is made of words with spaces between them.  It ends
  before a colon with a gap behind it, before an indicator
  of a flow collection, or where a line is indented less.
-/

------------------------------------------------------------
-- Words
------------------------------------------------------------

namespace Transclusion

namespace Yaml

/- The indicators that end a text in a flow collection. -/
def isFlowIndicator
    (c : Char) : Bool :=
  ",[]\x7b\x7d".toList.contains c

/- A word of a text, in a flow collection or not. -/
structure PlainWord
    (inFlow : Bool)
    (word : List Char) : Prop where
  solid : ∀ c ∈ word, isGap (some c) = false
  colon : word.getLast? ≠ some ':'
  flow :
    inFlow = true →
      ∀ c ∈ word, c ≠ ':' ∧ isFlowIndicator c = false

/- A word stands in one line. -/
theorem PlainWord.isBreak_of_mem
    {inFlow : Bool}
    {word : List Char}
    (hWord : PlainWord inFlow word) :
    ∀ c ∈ word, isBreak c = false :=
  fun c hMem => (Bool.or_eq_false_iff.mp (hWord.solid c hMem)).2

/- Whether a text ends before what is left. -/
def EndsPlain
    (inFlow : Bool) : List Char → Prop
  | [] => True
  | c :: rest =>
      (c = ':' ∧ isGap rest.head? = true) ∨
        (inFlow = true ∧ isFlowIndicator c = true)

/- A text does not end before a gap that follows. -/
theorem isGap_of_endsPlain
    {inFlow : Bool}
    {text : List Char}
    (hEnds : EndsPlain inFlow text)
    {c : Char}
    (hFirst : text.head? = some c) :
    isGap (some c) = false := by
  have hNone :
      ∀ d ∈ ",[]\x7b\x7d".toList, isGap (some d) = false := by
    exact List.forall_iff_forall_mem.mp (by decide)
  cases text with
  | nil => cases hFirst
  | cons d rest =>
      cases hFirst
      rcases hEnds with ⟨rfl, _⟩ | ⟨_, hIndicator⟩
      · rfl
      · exact hNone c (List.contains_iff_mem.mp hIndicator)

namespace Scan

variable {inFlow : Bool}
variable {rest word : List Char}
variable {size : Nat}
variable {mark start : Mark}

/- A text ends before a gap. -/
theorem plainChars_gap
    (hGap : isGap rest.head? = true)
    (fuel : Nat) :
    plainChars inFlow start (fuel + 1)
        (Cursor.on rest size mark) =
      .ok ([], Cursor.on rest size mark) := by
  rw [plainChars, bind_ok peek_on, bind_ok (peekAt_on 1)]
  cases rest with
  | nil => rfl
  | cons c more =>
      simp only [List.head?_cons]
      rw [if_pos (by exact hGap)]
      rfl

/- A gap is none of the indicators. -/
theorem not_any_of_isGap
    {after : Option Char}
    (hGap : isGap after = true) :
    after.any (",?[]\x7b\x7d".toList.contains ·) = false := by
  cases after with
  | none => rfl
  | some c =>
      have hNone :
          ∀ d ∈ ",?[]\x7b\x7d".toList,
            isGap (some d) = false := by
        exact List.forall_iff_forall_mem.mp (by decide)
      rw [Option.any_some, Bool.eq_false_iff]
      intro hMem
      rw [hNone c (List.contains_iff_mem.mp hMem)] at hGap
      cases hGap

/- A text ends before some indicators. -/
theorem plainChars_end
    (hEnds : EndsPlain inFlow rest)
    (fuel : Nat) :
    plainChars inFlow start (fuel + 1)
        (Cursor.on rest size mark) =
      .ok ([], Cursor.on rest size mark) := by
  cases rest with
  | nil => exact plainChars_gap rfl fuel
  | cons c more =>
      by_cases hGap : isGap (some c) = true
      · exact plainChars_gap (by exact hGap) fuel
      · rw [plainChars, bind_ok peek_on,
          bind_ok (peekAt_on 1)]
        simp only [List.head?_cons]
        have hAfter : (c :: more)[1]? = more.head? :=
          List.head?_eq_getElem?.symm
        rw [if_neg (by exact hGap), hAfter]
        rcases hEnds with ⟨rfl, hBehind⟩ | ⟨hFlow, hIndicator⟩
        · rw [not_any_of_isGap hBehind, hBehind, if_neg (by simp),
            if_pos (by simp), pure_ok]
        · have hColon : (c == ':') = false := by
            rw [beq_eq_false_iff_ne]
            rintro rfl
            cases hIndicator
          unfold isFlowIndicator at hIndicator
          rw [hFlow, hColon, hIndicator, if_neg (by simp),
            if_pos (by simp), pure_ok]

/- A word is read up to its end. -/
theorem plainChars_word
    (hWord : PlainWord inFlow word)
    (hEnds : isGap rest.head? = true ∨ EndsPlain inFlow rest)
    {fuel : Nat}
    (hFuel : word.length < fuel) :
    plainChars inFlow start fuel
        (Cursor.on (word ++ rest) size mark) =
      .ok (word,
        Cursor.on rest size (mark.after word)) := by
  induction word generalizing fuel mark with
  | nil =>
      rcases Nat.exists_eq_add_one.mpr
          (Nat.zero_lt_of_lt hFuel) with ⟨fuel, rfl⟩
      rcases hEnds with hGap | hEnds
      · exact plainChars_gap hGap fuel
      · exact plainChars_end hEnds fuel
  | cons c word ih =>
      rcases Nat.exists_eq_add_one.mpr
          (Nat.zero_lt_of_lt hFuel) with ⟨fuel, rfl⟩
      have hTail : PlainWord inFlow word := by
        refine ⟨(List.forall_mem_cons.mp hWord.solid).2, ?_, ?_⟩
        · intro hColon
          exact hWord.colon (List.mem_getLast?_cons hColon)
        · exact fun hFlow =>
            (List.forall_mem_cons.mp (hWord.flow hFlow)).2
      have hGap := (List.forall_mem_cons.mp hWord.solid).1
      change (isWhite c || isBreak c) = false at hGap
      have hLine := (Bool.or_eq_false_iff.mp hGap).2
      have hAfter :
          (c :: (word ++ rest))[1]? = (word ++ rest).head? :=
        List.head?_eq_getElem?.symm
      rw [List.cons_append, plainChars, bind_ok peek_on,
        bind_ok (peekAt_on 1), hAfter]
      simp only [List.head?_cons]
      have hColon :
          c = ':' →
            inFlow = false ∧
              isGap (word ++ rest).head? = false := by
        rintro rfl
        constructor
        · rw [Bool.eq_false_iff]
          intro hFlow
          exact (hWord.flow hFlow ':' List.mem_cons_self).1 rfl
        · cases word with
          | nil => exact absurd rfl hWord.colon
          | cons d more =>
              exact
                hWord.solid d
                  (List.mem_cons_of_mem _ List.mem_cons_self)
      have hNoError :
          (inFlow && c == ':') = false := by
        rw [Bool.and_eq_false_iff, beq_eq_false_iff_ne]
        by_cases hEq : c = ':'
        · exact Or.inl (hColon hEq).1
        · exact Or.inr hEq
      have hNoEnd :
          (c == ':' && isGap (word ++ rest).head? ||
            inFlow && isFlowIndicator c) = false := by
        rw [Bool.or_eq_false_iff, Bool.and_eq_false_iff,
          Bool.and_eq_false_iff, beq_eq_false_iff_ne]
        constructor
        · by_cases hEq : c = ':'
          · exact Or.inr (hColon hEq).2
          · exact Or.inl hEq
        · cases hFlow : inFlow with
          | false => exact Or.inl rfl
          | true =>
              exact
                Or.inr (hWord.flow hFlow c List.mem_cons_self).2
      unfold isFlowIndicator at hNoEnd
      rw [hGap, hNoError, hNoEnd]
      simp only [Bool.false_and, Bool.false_eq_true, if_false]
      rw [bind_ok (skip_one hLine), bind_ok (ensure_on 2),
        bind_ok (ih hTail (Nat.lt_of_succ_lt_succ hFuel)),
        pure_ok]
      rfl

end Scan

end Yaml

end Transclusion

------------------------------------------------------------
-- Texts
------------------------------------------------------------

namespace Transclusion

namespace Yaml

/- A text of words with spaces between them. -/
inductive PlainText
    (inFlow : Bool) : List Char → Prop where
  | word
      {word : List Char}
      (hWord : PlainWord inFlow word)
      (hSome : word ≠ []) :
      PlainText inFlow word
  | spaces
      {word rest : List Char}
      (hWord : PlainWord inFlow word)
      (hSome : word ≠ [])
      (count : Nat)
      (hComment : rest.head? ≠ some '#')
      (hRest : PlainText inFlow rest) :
      PlainText inFlow
        (word ++ List.replicate (count + 1) ' ' ++ rest)

/- A text begins with no gap. -/
theorem PlainText.exists_cons
    {inFlow : Bool}
    {text : List Char}
    (hText : PlainText inFlow text) :
    ∃ first more,
      text = first :: more ∧ isGap (some first) = false := by
  cases hText with
  | word hWord hSome =>
      rcases List.exists_cons_of_ne_nil hSome with
        ⟨first, more, rfl⟩
      exact ⟨_, _, rfl, hWord.solid _ List.mem_cons_self⟩
  | spaces hWord hSome count hComment hRest =>
      rcases List.exists_cons_of_ne_nil hSome with
        ⟨first, more, rfl⟩
      exact ⟨_, _, rfl, hWord.solid _ List.mem_cons_self⟩

/- A text stands in one line. -/
theorem PlainText.isBreak_of_mem
    {inFlow : Bool}
    {text : List Char}
    (hText : PlainText inFlow text) :
    ∀ c ∈ text, isBreak c = false := by
  induction hText with
  | word hWord hSome => exact hWord.isBreak_of_mem
  | spaces hWord hSome count hComment hRest ih =>
      simp only [List.forall_mem_append]
      exact
        ⟨⟨hWord.isBreak_of_mem,
          List.forall_mem_replicate.mpr (Or.inr rfl)⟩, ih⟩

namespace Scan

variable {inFlow : Bool}
variable {text word spacing rest tail : List Char}
variable {size indent : Nat}
variable {mark start stop : Mark}

/-
  A text that goes on behind a gap is read up to its next
  gap or its end.
-/
theorem plainParts_word
    (hWord : PlainWord inFlow word)
    (hSome : word ≠ [])
    (hRuled : mark.column ≠ 0 ∨ ¬ IsRuled (word ++ rest))
    (hComment : word.head? ≠ some '#')
    (hEnds : isGap rest.head? = true ∨ EndsPlain inFlow rest)
    (hSize : word.length ≤ size)
    (fuel : Nat)
    (gap : Fold) :
    plainParts inFlow indent start (fuel + 1) gap stop
        (Cursor.on (word ++ rest) size mark) =
      (if !(rest.head?.any fun c => isWhite c || isBreak c) then
        pure (gap.text ++ word, mark.after word, false)
      else do
        let after ← fold indent start (size + 1) {}
        if !inFlow && (← Scan.mark).column < indent then
          return (gap.text ++ word, mark.after word, after.broken)
        else
          let (rest, stop, broken) ←
            plainParts inFlow indent start fuel after
              (mark.after word)
          return (gap.text ++ word ++ rest, stop, broken))
        (Cursor.on rest size (mark.after word)) := by
  have hHash : ((word ++ rest).head? == some '#') = false := by
    rcases List.exists_cons_of_ne_nil hSome with
      ⟨first, more, rfl⟩
    simpa using hComment
  rw [plainParts, bind_ok (ensure_on 4),
    bind_ok (atDocumentIndicator_on hRuled),
    bind_ok (nextIs_on _), hHash, if_neg (by simp),
    bind_ok fuel_on,
    bind_ok
      (plainChars_word hWord hEnds (Nat.lt_succ_of_le hSize)),
    if_neg hSome, bind_ok mark_on, bind_ok peek_on]
  split
  · rfl
  · rw [bind_ok fuel_on]

/- Nothing more is read at the end. -/
theorem plainParts_end
    (hEnds : EndsPlain inFlow tail)
    (fuel : Nat)
    (gap : Fold) :
    plainParts inFlow indent start fuel gap stop
        (Cursor.on tail size mark) =
      .ok (([], stop, gap.broken),
        Cursor.on tail size mark) := by
  cases fuel with
  | zero => rfl
  | succ fuel =>
      rcases exists_atDocumentIndicator with
        ⟨found, hFound, _⟩
      rw [plainParts, bind_ok (ensure_on 4), bind_ok hFound,
        bind_ok (nextIs_on _)]
      split
      · rfl
      · rw [bind_ok fuel_on, bind_ok (plainChars_end hEnds _)]
        rfl

/- A gap without a word behind it is left behind. -/
theorem plainParts_last
    (hWord : PlainWord inFlow word)
    (hSome : word ≠ [])
    (hRuled :
      mark.column ≠ 0 ∨ ¬ IsRuled (word ++ (spacing ++ tail)))
    (hComment : word.head? ≠ some '#')
    (hSpacing : ∀ c ∈ spacing, isSpacing c = true)
    (hTail : ∀ c ∈ tail.head?, isGap (some c) = false)
    (hStop :
      (spacing ≠ [] ∧ inFlow = false ∧
          ((mark.after word).after spacing).column < indent) ∨
        EndsPlain inFlow tail)
    (hSize : word.length + spacing.length ≤ size)
    (fuel : Nat)
    (gap : Fold) :
    plainParts inFlow indent start (fuel + 1) gap stop
        (Cursor.on (word ++ (spacing ++ tail)) size mark) =
      .ok
        ((gap.text ++ word, mark.after word,
            spacing.any isBreak),
          Cursor.on tail size
            ((mark.after word).after spacing)) := by
  cases hCons : spacing with
  | nil =>
      have hEnds : EndsPlain inFlow tail :=
        hStop.resolve_left fun hStop => hStop.1 hCons
      have hNone :
          (tail.head?.any fun c => isWhite c || isBreak c) =
            false := by
        cases tail with
        | nil => rfl
        | cons c more => exact hTail c rfl
      rw [hCons] at hRuled hSize
      rw [plainParts_word hWord hSome hRuled hComment
        (Or.inr hEnds) (by omega)]
      rw [List.nil_append, hNone]
      rfl
  | cons first more =>
      rw [← hCons]
      have hFirst :
          isGap (spacing ++ tail).head? = true := by
        rw [hCons]
        exact
          isGap_of_isSpacing
            (hSpacing first (hCons ▸ List.mem_cons_self))
      have hGap :
          ((spacing ++ tail).head?.any fun c =>
            isWhite c || isBreak c) = true := by
        rw [hCons] at hFirst ⊢
        exact hFirst
      have hBroken :
          (spacing.foldl Fold.step {}).broken =
            spacing.any isBreak := by
        rw [Fold.broken_foldl_step, Bool.false_or]
      rw [plainParts_word hWord hSome hRuled hComment
        (Or.inl hFirst) (by omega), hGap, if_neg (by simp),
        bind_ok (fold_append hSpacing hTail _ (by omega) {}),
        bind_ok mark_on, hBroken]
      rcases hStop with ⟨_, hFlow, hColumn⟩ | hEnds
      · rw [if_pos (by simpa using ⟨hFlow, hColumn⟩), pure_ok]
      · split
        · rfl
        · rw [bind_ok (plainParts_end hEnds _ _), hBroken]
          simp

/-
  A word is read with the spaces behind it and what is read
  of the rest, which begins in the same line.
-/
theorem plainParts_spaces
    {fuel : Nat}
    {gap : Fold}
    {read : List Char}
    {last : Mark}
    {broken : Bool}
    {after : Cursor}
    (hWord : PlainWord inFlow word)
    (hSome : word ≠ [])
    (count : Nat)
    (hRuled :
      mark.column ≠ 0 ∨
        ¬ IsRuled
          (word ++ (List.replicate (count + 1) ' ' ++ rest)))
    (hComment : word.head? ≠ some '#')
    (hRest : ∀ c ∈ rest.head?, isGap (some c) = false)
    (hIndent :
      inFlow = false →
        indent ≤ mark.column + word.length + (count + 1))
    (hSize : word.length + (count + 1) ≤ size)
    (hRead :
      plainParts inFlow indent start fuel
          { whites := List.replicate (count + 1) ' ' }
          (mark.after word)
          (Cursor.on rest size
            ((mark.after word).after
              (List.replicate (count + 1) ' '))) =
        .ok ((read, last, broken), after)) :
    plainParts inFlow indent start (fuel + 1) gap stop
        (Cursor.on
          (word ++ (List.replicate (count + 1) ' ' ++ rest))
          size mark) =
      .ok ((gap.text ++ word ++ read, last, broken), after) := by
  have hGap :
      ∀ c ∈ List.replicate (count + 1) ' ',
        isSpacing c = true :=
    List.forall_mem_replicate.mpr (Or.inr rfl)
  have hFirst :
      (List.replicate (count + 1) ' ' ++ rest).head? =
        some ' ' :=
    rfl
  have hFold :
      (List.replicate (count + 1) ' ').foldl Fold.step {} =
        { whites := List.replicate (count + 1) ' ' } :=
    Fold.foldl_step_spaces _ rfl
  have hColumn :
      ((mark.after word).after
            (List.replicate (count + 1) ' ')).column =
        mark.column + word.length + (count + 1) := by
    rw [Mark.column_after_spaces,
      Mark.after_of_line hWord.isBreak_of_mem]
  have hInside :
      (!inFlow &&
          decide
            (((mark.after word).after
                  (List.replicate (count + 1) ' ')).column <
              indent)) = false := by
    rw [hColumn, Bool.and_eq_false_iff]
    cases hFlow : inFlow with
    | true => exact Or.inl rfl
    | false =>
        have hIndent := hIndent hFlow
        right
        rw [decide_eq_false_iff_not]
        omega
  rw [plainParts_word hWord hSome hRuled hComment
    (Or.inl rfl) (by omega), hFirst,
    if_neg (by simp [isWhite]),
    bind_ok
      (fold_append hGap hRest _
        (by rw [List.length_replicate]; omega) {}),
    bind_ok mark_on, hFold, hInside]
  simp only [Bool.false_eq_true, if_false]
  rw [bind_ok hRead, pure_ok]

/- A text is read up to its end, with the gap behind it. -/
theorem plainParts_text
    (hText : PlainText inFlow text)
    (hRuled :
      mark.column ≠ 0 ∨ ¬ IsRuled (text ++ (spacing ++ tail)))
    (hComment : text.head? ≠ some '#')
    (hSpacing : ∀ c ∈ spacing, isSpacing c = true)
    (hTail : ∀ c ∈ tail.head?, isGap (some c) = false)
    (hStop :
      (spacing ≠ [] ∧ inFlow = false ∧
          ((mark.after text).after spacing).column < indent) ∨
        EndsPlain inFlow tail)
    (hIndent : inFlow = false → indent ≤ mark.column + 1)
    (hSize : text.length + spacing.length ≤ size)
    {fuel : Nat}
    (hFuel : text.length < fuel)
    (gap : Fold) :
    plainParts inFlow indent start fuel gap stop
        (Cursor.on (text ++ (spacing ++ tail)) size mark) =
      .ok
        ((gap.text ++ text, mark.after text,
            spacing.any isBreak),
          Cursor.on tail size
            ((mark.after text).after spacing)) := by
  induction hText generalizing mark stop fuel gap with
  | word hWord hSome =>
      rcases Nat.exists_eq_add_one.mpr
          (Nat.zero_lt_of_lt hFuel) with ⟨fuel, rfl⟩
      exact
        plainParts_last hWord hSome hRuled hComment hSpacing
          hTail hStop hSize fuel gap
  | @spaces word rest hWord hSome count hHash hRest ih =>
      rcases Nat.exists_eq_add_one.mpr
          (Nat.zero_lt_of_lt hFuel) with ⟨fuel, rfl⟩
      have hWordLength := List.length_pos_iff.mpr hSome
      simp only [List.length_append, List.length_replicate]
        at hSize hFuel
      simp only [List.append_assoc] at hRuled hStop ⊢
      rw [Mark.after_append, Mark.after_append] at hStop ⊢
      have hHead : word.head? ≠ some '#' := by
        rcases List.exists_cons_of_ne_nil hSome with
          ⟨first, more, rfl⟩
        exact hComment
      have hMore :
          ∀ c ∈ (rest ++ (spacing ++ tail)).head?,
            isGap (some c) = false := by
        rcases hRest.exists_cons with
          ⟨first, more, rfl, hNone⟩
        rintro c hMem
        cases hMem
        exact hNone
      have hColumn :
          ((mark.after word).after
                (List.replicate (count + 1) ' ')).column =
            mark.column + word.length + (count + 1) := by
        rw [Mark.column_after_spaces,
          Mark.after_of_line hWord.isBreak_of_mem]
      have hRead :
          plainParts inFlow indent start fuel
              { whites := List.replicate (count + 1) ' ' }
              (mark.after word)
              (Cursor.on (rest ++ (spacing ++ tail)) size
                ((mark.after word).after
                  (List.replicate (count + 1) ' '))) = _ :=
        ih (Or.inl (by omega)) hHash hStop
          (fun hFlow => by have := hIndent hFlow; omega)
          (by omega) (by omega) _
      refine
        (plainParts_spaces hWord hSome count hRuled hHead
          hMore
          (fun hFlow => by have := hIndent hFlow; omega)
          (by omega) hRead).trans ?_
      rw [Fold.text_whites]
      simp only [List.append_assoc]

/- A text without quotes is read as it stands. -/
theorem plainScalar_text
    (parent : Int)
    (hText : PlainText inFlow text)
    (hRuled :
      mark.column ≠ 0 ∨ ¬ IsRuled (text ++ (spacing ++ tail)))
    (hComment : text.head? ≠ some '#')
    (hSpacing : ∀ c ∈ spacing, isSpacing c = true)
    (hTail : ∀ c ∈ tail.head?, isGap (some c) = false)
    (hStop :
      (spacing ≠ [] ∧ inFlow = false ∧
          ((mark.after text).after spacing).column <
            (parent + 1).toNat) ∨
        EndsPlain inFlow tail)
    (hIndent : inFlow = false → parent ≤ mark.column)
    (hSize : text.length + spacing.length ≤ size) :
    plainScalar parent inFlow
        (Cursor.on (text ++ (spacing ++ tail)) size mark) =
      .ok
        ((⟨.scalar text .plain, mark, mark.after text⟩,
            spacing.any isBreak),
          Cursor.on tail size
            ((mark.after text).after spacing)) := by
  rw [plainScalar, bind_ok mark_on, bind_ok fuel_on,
    bind_ok
      (plainParts_text hText hRuled hComment hSpacing hTail
        hStop (fun hFlow => by have := hIndent hFlow; omega)
        hSize (by omega) {})]
  rfl

end Scan

end Yaml

end Transclusion
