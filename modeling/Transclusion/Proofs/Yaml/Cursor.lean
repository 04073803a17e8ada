import Mathlib.Data.List.Basic
import Transclusion.Proofs.Yaml.Run
import Transclusion.Yaml.Token.Scalar

/-
  Moving through a text without faults.

  Key definitions include:
    * `Transclusion.Yaml.Mark.after`
    * `Transclusion.Yaml.Cursor.on`

  Key theorems include:
    * `Transclusion.Yaml.Scan.skip_append`
    * `Transclusion.Yaml.Scan.span_append`
    * `Transclusion.Yaml.Scan.lineBreak_cons`

  What is left behind decides about the mark: a line break
  begins a line, and any other character takes up a column.
-/

------------------------------------------------------------
-- Marks
------------------------------------------------------------

namespace Transclusion

namespace Yaml

/- The number of bytes of texts adds up. -/
theorem byteCount_append
    (a b : List Char) :
    byteCount (a ++ b) = byteCount a + byteCount b := by
  have hFrom (text : List Char) (start : Nat) :
      text.foldl (fun count c => count + c.utf8Size) start =
        start + byteCount text := by
    unfold byteCount
    induction text generalizing start with
    | nil => rfl
    | cons c rest ih =>
        rw [List.foldl_cons, List.foldl_cons, ih, ih (0 + _)]
        omega
  unfold byteCount
  rw [List.foldl_append, hFrom]
  rfl

/- The first character and the others. -/
theorem byteCount_cons
    (c : Char)
    (rest : List Char) :
    byteCount (c :: rest) = c.utf8Size + byteCount rest := by
  rw [← List.singleton_append, byteCount_append]
  simp [byteCount]

namespace Mark

/- The mark behind a character. -/
def step
    (mark : Mark)
    (c : Char) : Mark :=
  if isBreak c then
    { index := mark.index + c.utf8Size
      line := mark.line + 1
      column := 0 }
  else
    { mark with
      index := mark.index + c.utf8Size
      column := mark.column + 1 }

/- The mark behind a text without pairs that end a line. -/
def after
    (mark : Mark)
    (text : List Char) : Mark :=
  text.foldl step mark

variable {mark : Mark}
variable {text : List Char}

/- Behind nothing. -/
@[simp]
theorem after_nil :
    mark.after [] = mark := by
  rfl

/- Behind one text and then another. -/
theorem after_append
    (a b : List Char) :
    mark.after (a ++ b) = (mark.after a).after b := by
  exact List.foldl_append

/- Behind a character and then a text. -/
theorem after_cons
    (c : Char)
    (rest : List Char) :
    mark.after (c :: rest) = (mark.step c).after rest := by
  rfl

/- Within a line only bytes and columns are counted. -/
theorem after_of_line
    (hLine : ∀ c ∈ text, isBreak c = false) :
    mark.after text =
      { mark with
        index := mark.index + byteCount text
        column := mark.column + text.length } := by
  induction text generalizing mark with
  | nil => rfl
  | cons c rest ih =>
      rw [List.forall_mem_cons] at hLine
      rw [after_cons, ih hLine.2]
      unfold step
      rw [hLine.1]
      simp only [Bool.false_eq_true, if_false]
      rw [byteCount_cons, List.length_cons]
      congr 1 <;> omega

/- Spaces stay within a line. -/
theorem column_after_spaces
    (mark : Mark)
    (count : Nat) :
    (mark.after (List.replicate count ' ')).column =
      mark.column + count := by
  rw [after_of_line, List.length_replicate]
  exact List.forall_mem_replicate.mpr (Or.inr rfl)

/- Lines are never left again. -/
theorem line_le_after
    (mark : Mark)
    (text : List Char) :
    mark.line ≤ (mark.after text).line := by
  induction text generalizing mark with
  | nil => exact Nat.le_refl _
  | cons c rest ih =>
      have hStep : mark.line ≤ (mark.step c).line := by
        unfold step
        split
        · exact Nat.le_succ _
        · exact Nat.le_refl _
      exact Nat.le_trans hStep (ih (mark.step c))

end Mark

end Yaml

end Transclusion

------------------------------------------------------------
-- Cursors
------------------------------------------------------------

namespace Transclusion

namespace Yaml

/- Only characters that may occur are written. -/
def IsAllowedText
    (text : List Char) : Prop :=
  ∀ c ∈ text, isAllowed c = true

/- What a line break stands for. -/
def breakText
    (c : Char) : List Char :=
  if c.toNat == 0x2028 || c.toNat == 0x2029 then [c]
  else ['\n']

/-
  A character of the gaps between words: a space, or a line
  break of one character.
-/
def isSpacing
    (c : Char) : Bool :=
  c == ' ' || (isBreak c && c != '\r')

/- A space is no break. -/
theorem isSpacing_cases
    {c : Char}
    (hSpacing : isSpacing c = true) :
    c = ' ' ∨
      isBreak c = true ∧ c ≠ '\r' ∧ isWhite c = false := by
  unfold isSpacing at hSpacing
  rw [Bool.or_eq_true_iff, beq_iff_eq, Bool.and_eq_true_iff,
    bne_iff_ne] at hSpacing
  refine hSpacing.imp_right fun ⟨hBreak, hReturn⟩ => ?_
  refine ⟨hBreak, hReturn, ?_⟩
  unfold isWhite
  rw [Bool.or_eq_false_iff, beq_eq_false_iff_ne,
    beq_eq_false_iff_ne]
  constructor <;>
    (rintro rfl; exact absurd hBreak (by decide))

/- A text without spaces, or its first word and gap. -/
theorem split_spaces
    (text : List Char) :
    (∀ c ∈ text, c ≠ ' ') ∨
      ∃ word count more,
        text = word ++ List.replicate (count + 1) ' ' ++ more ∧
          (∀ c ∈ word, c ≠ ' ') ∧ more.head? ≠ some ' ' := by
  induction text with
  | nil => exact Or.inl fun c hMem => absurd hMem (by simp)
  | cons c rest ih =>
      by_cases hSpace : c = ' '
      · subst hSpace
        right
        rcases ih with
          hWord | ⟨word, count, more, rfl, hWord, hMore⟩
        · refine ⟨[], 0, rest, rfl, by simp, ?_⟩
          intro hFirst
          exact hWord ' ' (List.mem_of_mem_head? hFirst) rfl
        · cases word with
          | nil => exact ⟨[], count + 1, more, rfl, hWord, hMore⟩
          | cons d word =>
              refine ⟨[], 0, _, rfl, by simp, ?_⟩
              intro hFirst
              cases hFirst
              exact hWord ' ' List.mem_cons_self rfl
      · rcases ih with
          hWord | ⟨word, count, more, rfl, hWord, hMore⟩
        · exact Or.inl (List.forall_mem_cons.mpr ⟨hSpace, hWord⟩)
        · exact
            Or.inr
              ⟨c :: word, count, more, rfl,
                List.forall_mem_cons.mpr ⟨hSpace, hWord⟩,
                hMore⟩

/- Spacing is a gap. -/
theorem isGap_of_isSpacing
    {c : Char}
    (hSpacing : isSpacing c = true) :
    isGap (some c) = true := by
  change (isWhite c || isBreak c) = true
  rcases isSpacing_cases hSpacing with rfl | ⟨hBreak, _, _⟩
  · rfl
  · rw [hBreak, Bool.or_true]

/-
  Whether a text begins with three of the characters that
  start or end documents.
-/
def IsRuled
    (text : List Char) : Prop :=
  text.take 3 = ['-', '-', '-'] ∨
    text.take 3 = ['.', '.', '.']

namespace Cursor

/- A cursor on a text without faults. -/
def on
    (rest : List Char)
    (size : Nat)
    (mark : Mark) : Cursor :=
  { rest := rest, size := size, mark := mark }

/- Characters that may occur are taken in. -/
theorem readable_of_isAllowed
    {text : List Char}
    (hAllowed : ∀ c ∈ text, isAllowed c = true)
    (offset blockStart : Nat)
    (held : List Char) :
    readable offset blockStart held text =
      (held.reverse ++ text, none) := by
  induction text generalizing offset blockStart held with
  | nil => rw [readable, List.append_nil]
  | cons c text ih =>
      rw [List.forall_mem_cons] at hAllowed
      have hMore := ih hAllowed.2
      rw [readable]
      simp only [hAllowed.1, if_true]
      split
      · rw [hMore]
        rfl
      · rw [hMore, List.reverse_cons, List.append_assoc]
        rfl

/- A text of such characters has no fault. -/
theorem ofText_of_isAllowed
    {text : List Char}
    (hAllowed : ∀ c ∈ text, isAllowed c = true) :
    Cursor.ofText text =
      Cursor.on text text.length Mark.start := by
  rw [ofText, readable_of_isAllowed hAllowed]
  rfl

end Cursor

namespace Scan

variable {rest taken : List Char}
variable {size : Nat}
variable {mark : Mark}

/- Without faults as much as is wanted can be looked at. -/
@[simp]
theorem ensure_on
    (count : Nat) :
    ensure count (Cursor.on rest size mark) =
      .ok ((), Cursor.on rest size mark) := by
  rfl

/- The mark of a cursor. -/
@[simp]
theorem mark_on :
    Scan.mark (Cursor.on rest size mark) =
      .ok (mark, Cursor.on rest size mark) := by
  rfl

/- The character at a distance. -/
@[simp]
theorem peekAt_on
    (distance : Nat) :
    peekAt distance (Cursor.on rest size mark) =
      .ok (rest[distance]?, Cursor.on rest size mark) := by
  rfl

/- The next character. -/
@[simp]
theorem peek_on :
    peek (Cursor.on rest size mark) =
      .ok (rest.head?, Cursor.on rest size mark) := by
  cases rest <;> rfl

/- Whether a character comes next. -/
@[simp]
theorem nextIs_on
    (c : Char) :
    nextIs c (Cursor.on rest size mark) =
      .ok (rest.head? == some c, Cursor.on rest size mark) := by
  cases rest <;> rfl

/- Whether three equal characters are an indicator. -/
theorem exists_atIndicator
    (c : Char) :
    ∃ found,
      atIndicator c (Cursor.on rest size mark) =
          .ok (found, Cursor.on rest size mark) ∧
        (found = true →
          mark.column = 0 ∧ rest.take 3 = [c, c, c]) := by
  refine ⟨_, rfl, fun hFound => ?_⟩
  simp only [Cursor.on, Bool.and_eq_true_iff, beq_iff_eq]
    at hFound
  exact hFound.1

/- Whether a document starts or ends. -/
theorem exists_atDocumentIndicator :
    ∃ found,
      atDocumentIndicator (Cursor.on rest size mark) =
          .ok (found, Cursor.on rest size mark) ∧
        (found = true → mark.column = 0 ∧ IsRuled rest) := by
  rcases exists_atIndicator '-' with ⟨dashes, hDashes, hFirst⟩
  rcases exists_atIndicator '.' with ⟨points, hPoints, hNext⟩
  refine ⟨dashes || points, ?_, fun hFound => ?_⟩
  · unfold atDocumentIndicator
    rw [bind_ok hDashes, bind_ok hPoints]
    rfl
  · rcases Bool.or_eq_true_iff.mp hFound with hDash | hPoint
    · exact (hFirst hDash).imp_right Or.inl
    · exact (hNext hPoint).imp_right Or.inr

/- No document starts or ends here. -/
theorem atDocumentIndicator_on
    (hNone : mark.column ≠ 0 ∨ ¬ IsRuled rest) :
    atDocumentIndicator (Cursor.on rest size mark) =
      .ok (false, Cursor.on rest size mark) := by
  rcases exists_atDocumentIndicator with ⟨found, hRun, hFound⟩
  cases found with
  | false => exact hRun
  | true =>
      rcases hFound rfl with ⟨hColumn, hRuled⟩
      exact (hNone.elim (· hColumn) (· hRuled)).elim

/- Enough steps for any loop. -/
@[simp]
theorem fuel_on :
    Scan.fuel (Cursor.on rest size mark) =
      .ok (size + 1, Cursor.on rest size mark) := by
  rfl

/- Characters of one line are left behind. -/
theorem skip_append
    (hLine : ∀ c ∈ taken, isBreak c = false) :
    skip taken.length (Cursor.on (taken ++ rest) size mark) =
      .ok ((), Cursor.on rest size (mark.after taken)) := by
  rw [Mark.after_of_line hLine]
  unfold skip Cursor.on
  rw [modify_ok, List.drop_left, List.take_left]

/- One character is left behind. -/
theorem skip_one
    {c : Char}
    (hLine : isBreak c = false) :
    skip 1 (Cursor.on (c :: rest) size mark) =
      .ok ((), Cursor.on rest size (mark.step c)) := by
  have hTaken : ∀ d ∈ [c], isBreak d = false := by
    simpa using hLine
  exact skip_append hTaken

/- Two characters are left behind. -/
theorem skip_two
    {a b : Char}
    (hFirst : isBreak a = false)
    (hSecond : isBreak b = false) :
    skip 2 (Cursor.on (a :: b :: rest) size mark) =
      .ok ((), Cursor.on rest size (mark.after [a, b])) := by
  have hTaken : ∀ d ∈ [a, b], isBreak d = false := by
    simpa using ⟨hFirst, hSecond⟩
  exact skip_append hTaken

/- The characters of a class are left behind. -/
theorem span_append
    {inClass : Char → Bool}
    (hTaken : ∀ c ∈ taken, inClass c = true)
    (hLine : ∀ c ∈ taken, isBreak c = false)
    (hRest : ∀ c ∈ rest.head?, inClass c = false) :
    span inClass (Cursor.on (taken ++ rest) size mark) =
      .ok (taken, Cursor.on rest size (mark.after taken)) := by
  have hTake : (taken ++ rest).takeWhile inClass = taken := by
    rw [List.takeWhile_append_of_pos hTaken]
    cases rest with
    | nil => simp
    | cons c more =>
        have hFirst : inClass c = false := hRest c rfl
        simp [hFirst]
  unfold span
  rw [bind_ok get_ok]
  change (do
    let taken := (taken ++ rest).takeWhile inClass
    skip taken.length
    ensure 1
    return taken : Scan (List Char)) _ = _
  simp only [hTake]
  rw [bind_ok (skip_append hLine), bind_ok (ensure_on 1),
    pure_ok]

/- A line break that is no carriage return is left behind. -/
theorem lineBreak_cons
    {c : Char}
    (hBreak : isBreak c = true)
    (hReturn : c ≠ '\r') :
    lineBreak (Cursor.on (c :: rest) size mark) =
      .ok (breakText c,
        Cursor.on rest size (mark.step c)) := by
  have hStep :
      mark.step c =
        { index := mark.index + byteCount [c]
          line := mark.line + 1
          column := 0 } := by
    unfold Mark.step
    rw [if_pos hBreak, byteCount_cons]
    rfl
  rw [hStep]
  unfold lineBreak
  rw [bind_ok get_ok]
  generalize hText : breakText c = text
  unfold breakText at hText
  refine
    (congrFun
      (?_ :
        _ = (do
          set (Cursor.on rest size
            { index := mark.index + byteCount [c]
              line := mark.line + 1
              column := 0 })
          pure text : Scan (List Char))) _).trans rfl
  simp only [Cursor.on]
  split
  · rename_i hEq
    exact absurd (List.cons.inj hEq).1 hReturn
  · rename_i hEq
    cases hEq
    rw [if_pos hBreak]
    split at hText <;> cases hText
    · rename_i hSeparator
      rw [if_pos hSeparator]
      rfl
    · rename_i hSeparator
      rw [if_neg hSeparator]
      rfl
  · rename_i hEq
    cases hEq

end Scan

end Yaml

end Transclusion

------------------------------------------------------------
-- Gaps
------------------------------------------------------------

namespace Transclusion

namespace Yaml

namespace Fold

/- A gap with one more character. -/
def step
    (fold : Fold)
    (c : Char) : Fold :=
  if isBreak c then
    if fold.broken then
      { fold with more := fold.more ++ breakText c }
    else
      { fold with
        whites := []
        broken := true
        first := breakText c }
  else if fold.broken then fold
  else { fold with whites := fold.whites ++ [c] }

variable {fold : Fold}

/- Whether a gap ends a line. -/
theorem broken_foldl_step
    (gap : List Char)
    (fold : Fold) :
    (gap.foldl step fold).broken =
      (fold.broken || gap.any isBreak) := by
  induction gap generalizing fold with
  | nil => rw [List.any_nil, Bool.or_false, List.foldl_nil]
  | cons c rest ih =>
      have hStep :
          (fold.step c).broken = (fold.broken || isBreak c) := by
        unfold step
        cases hBroken : fold.broken <;>
          cases isBreak c <;> simp [hBroken]
      rw [List.foldl_cons, ih, hStep, List.any_cons,
        Bool.or_assoc]

/- Spaces count as long as no line has ended. -/
theorem step_space :
    fold.step ' ' =
      if fold.broken then fold
      else { fold with whites := fold.whites ++ [' '] } := by
  unfold step
  rw [if_neg (by decide)]

/- Line breaks count, but not the spaces before them. -/
theorem step_break
    {c : Char}
    (hBreak : isBreak c = true) :
    fold.step c =
      if fold.broken then
        { fold with more := fold.more ++ breakText c }
      else
        { fold with
          whites := []
          broken := true
          first := breakText c } := by
  unfold step
  rw [if_pos hBreak]

/- Blanks within a line stand for themselves. -/
theorem text_whites
    (blanks : List Char) :
    ({ whites := blanks } : Fold).text = blanks := by
  rfl

/- Spaces stand for themselves. -/
theorem foldl_step_spaces
    (count : Nat)
    (hLine : fold.broken = false) :
    (List.replicate count ' ').foldl step fold =
      { fold with
        whites :=
          fold.whites ++ List.replicate count ' ' } := by
  induction count generalizing fold with
  | zero =>
      rw [List.replicate_zero, List.append_nil]
      rfl
  | succ count ih =>
      rw [List.replicate_succ, List.foldl_cons, step_space,
        if_neg (by simp [hLine]), ih (by exact hLine)]
      simp

end Fold

namespace Scan

variable {rest : List Char}
variable {size : Nat}
variable {mark start : Mark}

/- A gap is left behind as a whole. -/
theorem fold_append
    {gap : List Char}
    (hGap : ∀ c ∈ gap, isSpacing c = true)
    (hRest : ∀ c ∈ rest.head?, isGap (some c) = false)
    (tabLimit : Nat)
    {fuel : Nat}
    (hFuel : gap.length < fuel)
    (taken : Fold) :
    fold tabLimit start fuel taken
        (Cursor.on (gap ++ rest) size mark) =
      .ok (gap.foldl Fold.step taken,
        Cursor.on rest size (mark.after gap)) := by
  induction gap generalizing fuel taken mark with
  | nil =>
      rcases Nat.exists_eq_add_one.mpr
          (Nat.zero_lt_of_lt hFuel) with ⟨fuel, rfl⟩
      rw [List.nil_append, fold, bind_ok peek_on]
      cases rest with
      | nil => rfl
      | cons c more =>
          have hNone : isGap (some c) = false := hRest c rfl
          have hNone := Bool.or_eq_false_iff.mp hNone
          simp only [List.head?_cons, hNone.1, hNone.2,
            Bool.false_eq_true, if_false]
          rfl
  | cons c gap ih =>
      rw [List.forall_mem_cons] at hGap
      rw [List.length_cons] at hFuel
      rcases Nat.exists_eq_add_one.mpr
          (Nat.zero_lt_of_lt hFuel) with ⟨fuel, rfl⟩
      have hMore :
          fold tabLimit start fuel (taken.step c)
              (Cursor.on (gap ++ rest) size (mark.step c)) =
            .ok (gap.foldl Fold.step (taken.step c),
              Cursor.on rest size
                ((mark.step c).after gap)) :=
        ih hGap.2 (Nat.lt_of_succ_lt_succ hFuel) _
      rw [List.cons_append, fold, bind_ok peek_on]
      simp only [List.head?_cons]
      refine (?_ : _ = _).trans hMore
      rcases isSpacing_cases hGap.1 with
        rfl | ⟨hBreak, hReturn, hWhite⟩
      · have hTab : (' ' == '\t') = false := by decide
        rw [if_pos (by decide), Fold.step_space]
        simp only [hTab, Bool.and_false, Bool.false_and,
          Bool.false_eq_true, if_false]
        rw [bind_ok mark_on, bind_ok (skip_one (by decide)),
          bind_ok (ensure_on 1)]
      · rw [if_neg (by simp [hWhite]), if_pos hBreak,
          bind_ok (ensure_on 2),
          bind_ok (lineBreak_cons hBreak hReturn),
          bind_ok (ensure_on 1), Fold.step_break hBreak]

end Scan

end Yaml

end Transclusion
