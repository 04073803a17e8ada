import Transclusion.Proofs.Number.Shortest
import Transclusion.Yaml.Scalar

/-
  Written numbers are read as the numbers that they are.

  Key definitions include:
    * `Transclusion.Number.scalar`

  Key theorems include:
    * `Transclusion.Yaml.ofPlain_integerChars`
    * `Transclusion.Yaml.ofPlain_signText`
    * `Transclusion.Yaml.ofPlain_numberText`

  The text of a binary64 number always has a point or an
  exponent, which keeps it apart from the integers.
-/

------------------------------------------------------------
-- Digits
------------------------------------------------------------

namespace Transclusion

namespace Yaml

/- The decimal digits are the characters in their range. -/
theorem isDigit_iff
    {c : Char} :
    c.isDigit = true ↔ '0' ≤ c ∧ c ≤ '9' := by
  rw [Char.isDigit, Bool.and_eq_true, decide_eq_true_eq,
    decide_eq_true_eq]
  rfl

/- A digit is no character that is not one. -/
theorem ne_of_isDigit
    {c other : Char}
    (hDigit : c.isDigit = true)
    (hOther : other.isDigit = false) :
    c ≠ other := by
  rintro rfl
  rw [hDigit] at hOther
  cases hOther

/- The value of a decimal digit. -/
theorem hexValue?_of_isDigit
    {c : Char}
    (hDigit : c.isDigit = true) :
    hexValue? c = some (c.toNat - '0'.toNat) ∧
      c.toNat - '0'.toNat < 10 := by
  have hRange := isDigit_iff.mp hDigit
  have hUpper : c.toNat ≤ '0'.toNat + 9 := hRange.2
  unfold hexValue?
  rw [if_pos hRange]
  refine ⟨rfl, ?_⟩
  omega

/- What is no digit has no value below ten. -/
theorem ten_le_of_hexValue?
    {c : Char}
    {value : Nat}
    (hOther : c.isDigit = false)
    (hValue : hexValue? c = some value) :
    10 ≤ value := by
  have hRange : ¬ ('0' ≤ c ∧ c ≤ '9') := by
    rw [← isDigit_iff, hOther]
    simp
  unfold hexValue? at hValue
  rw [if_neg hRange] at hValue
  split at hValue
  · cases hValue
    omega
  · split at hValue
    · cases hValue
      omega
    · cases hValue

/- Decimal digits write a number. -/
theorem digits?_ten
    {text : List Char}
    (hSome : text ≠ [])
    (hDigits : ∀ c ∈ text, c.isDigit = true) :
    digits? 10 text = some (Nat.ofDigitChars 10 text 0) := by
  unfold digits?
  rw [if_neg hSome]
  clear hSome
  generalize 0 = start
  induction text generalizing start with
  | nil => rfl
  | cons c rest ih =>
      rw [List.forall_mem_cons] at hDigits
      rcases hexValue?_of_isDigit hDigits.1 with
        ⟨hValue, hLess⟩
      rw [List.foldlM_cons, hValue]
      simp only [if_pos hLess]
      change List.foldlM _ _ rest = _
      rw [ih hDigits.2, Nat.ofDigitChars_cons,
        Nat.mul_comm start]

/- Text with anything but digits writes no decimal number. -/
theorem digits?_ten_eq_none
    {text : List Char}
    {c : Char}
    (hMem : c ∈ text)
    (hOther : c.isDigit = false) :
    digits? 10 text = none := by
  unfold digits?
  rw [if_neg (List.ne_nil_of_mem hMem)]
  generalize 0 = start
  induction text generalizing start with
  | nil => cases hMem
  | cons first rest ih =>
      rw [List.foldlM_cons]
      cases hValue : hexValue? first with
      | none => rfl
      | some value =>
          simp only
          by_cases hLess : value < 10
          · rw [if_pos hLess]
            have hMem : c ∈ rest := by
              rcases List.mem_cons.mp hMem with rfl | hMem
              · have := ten_le_of_hexValue? hOther hValue
                omega
              · exact hMem
            exact ih hMem _
          · rw [if_neg hLess]
            rfl

variable {n : Nat}

/- The digits of a number are digits. -/
theorem isDigit_of_mem_toDigits
    {c : Char}
    (hMem : c ∈ Nat.toDigits 10 n) :
    c.isDigit = true :=
  Nat.isDigit_of_mem_toDigits (by omega) (by omega) hMem

/- The digits of a number write it. -/
theorem digits?_toDigits
    (n : Nat) :
    digits? 10 (Nat.toDigits 10 n) = some n := by
  rw [digits?_ten Nat.toDigits_ne_nil
    (fun _ => isDigit_of_mem_toDigits),
    Nat.ofDigitChars_ten_toDigits]

/- Only zero is written with a zero in front. -/
theorem eq_zero_of_toDigits
    {rest : List Char}
    (hDigits : Nat.toDigits 10 n = '0' :: rest) :
    n = 0 := by
  induction n using Nat.strong_induction_on
    generalizing rest with
  | _ n ih =>
      by_cases hLess : n < 10
      · rw [Nat.toDigits_of_lt_base hLess] at hDigits
        exact Nat.digitChar_eq_zero.mp (List.cons.inj hDigits).1
      · rw [Nat.toDigits_of_base_le (by omega) (by omega)]
          at hDigits
        rcases List.append_eq_cons_iff.mp hDigits with
          ⟨hNil, _⟩ | ⟨more, hMore, _⟩
        · exact absurd hNil Nat.toDigits_ne_nil
        · have := ih (n / 10) (by omega) hMore
          omega

end Yaml

end Transclusion

------------------------------------------------------------
-- Words and Marks
------------------------------------------------------------

namespace Transclusion

namespace Yaml

variable {c : Char}
variable {rest : List Char}

/- No word for nothing begins like a number. -/
theorem isNullWord_eq_false
    (hFirst : c.isDigit = true ∨ c = '-') :
    isNullWord (c :: rest) = false := by
  have hNe (other : Char)
      (hOther : other.isDigit = false ∧ other ≠ '-') :
      c ≠ other := by
    rcases hFirst with hDigit | rfl
    · exact ne_of_isDigit hDigit hOther.1
    · exact hOther.2.symm
  have hLower := hNe 'n' (by decide)
  have hUpper := hNe 'N' (by decide)
  have hMark := hNe '~' (by decide)
  simp [isNullWord, hLower, hUpper, hMark]

/- No Boolean word begins like a number. -/
theorem bool?_eq_none
    (hFirst : c.isDigit = true ∨ c = '-') :
    bool? (c :: rest) = none := by
  have hNe (other : Char)
      (hOther : other.isDigit = false ∧ other ≠ '-') :
      c ≠ other := by
    rcases hFirst with hDigit | rfl
    · exact ne_of_isDigit hDigit hOther.1
    · exact hOther.2.symm
  have hTrue := hNe 't' (by decide)
  have hTrueUpper := hNe 'T' (by decide)
  have hFalse := hNe 'f' (by decide)
  have hFalseUpper := hNe 'F' (by decide)
  simp [bool?, hTrue, hTrueUpper, hFalse, hFalseUpper]

/- Without a letter in second place there is no base. -/
theorem basedDigits?_eq_none
    (hSecond :
      ∀ first second more,
        rest = first :: second :: more →
          second ≠ 'x' ∧ second ≠ 'o' ∧ second ≠ 'b') :
    basedDigits? rest = none := by
  unfold basedDigits?
  split
  · exact absurd rfl (hSecond _ _ _ rfl).1
  · exact absurd rfl (hSecond _ _ _ rfl).2.1
  · exact absurd rfl (hSecond _ _ _ rfl).2.2
  · rfl

/- A digit in front is no sign. -/
theorem dropSign_of_isDigit
    (hFirst : c.isDigit = true) :
    dropSign (c :: rest) = c :: rest := by
  have hPlus : c ≠ '+' := ne_of_isDigit hFirst (by decide)
  have hMinus : c ≠ '-' := ne_of_isDigit hFirst (by decide)
  unfold dropSign
  split
  · rename_i hEq
    exact absurd (List.cons.inj hEq).1 hPlus
  · rename_i hEq
    exact absurd (List.cons.inj hEq).1 hMinus
  · rfl

end Yaml

end Transclusion

------------------------------------------------------------
-- Integers
------------------------------------------------------------

namespace Transclusion

namespace Yaml

/- The digits of a number have no zero to spare. -/
theorem hasSpareZero_toDigits
    (n : Nat) :
    hasSpareZero (Nat.toDigits 10 n) = false := by
  cases hDigits : Nat.toDigits 10 n with
  | nil => exact absurd hDigits Nat.toDigits_ne_nil
  | cons first rest =>
      have hFirst : first.isDigit = true :=
        isDigit_of_mem_toDigits (hDigits ▸ List.mem_cons_self)
      unfold hasSpareZero
      rw [dropSign_of_isDigit hFirst]
      split
      · rename_i second more hEq
        rw [hEq] at hDigits
        have hZero := eq_zero_of_toDigits hDigits
        rw [hZero, Nat.toDigits_zero] at hDigits
        cases hDigits
      · rfl

/- The digits of a number have no base. -/
theorem basedDigits?_toDigits
    (n : Nat) :
    basedDigits? (Nat.toDigits 10 n) = none := by
  apply basedDigits?_eq_none
  intro first second more hEq
  have hDigit : second.isDigit = true :=
    isDigit_of_mem_toDigits (n := n) (by rw [hEq]; simp)
  exact
    ⟨ne_of_isDigit hDigit (by decide),
      ne_of_isDigit hDigit (by decide),
      ne_of_isDigit hDigit (by decide)⟩

/- A sign does not make a zero spare. -/
theorem hasSpareZero_minus
    (hFirst : c.isDigit = true) :
    hasSpareZero ('-' :: c :: rest) =
      hasSpareZero (c :: rest) := by
  unfold hasSpareZero
  rw [dropSign_of_isDigit hFirst]
  rfl

/- An integer without a base, behind a minus. -/
theorem integer?_minus
    (hFirst : c.isDigit = true)
    (hBase : basedDigits? (c :: rest) = none)
    (hSpare : hasSpareZero (c :: rest) = false) :
    Yaml.integer? ('-' :: c :: rest) =
      (digits? 10 (c :: rest)).map fun (n : Nat) => -(n : Int) := by
  unfold Yaml.integer?
  simp only [hBase, hasSpareZero_minus hFirst, hSpare,
    Bool.false_eq_true, if_false]
  cases digits? 10 (c :: rest) <;> rfl

/- An integer without a base and without a sign. -/
theorem integer?_unsigned
    (hFirst : c.isDigit = true)
    (hBase : basedDigits? (c :: rest) = none)
    (hSpare : hasSpareZero (c :: rest) = false) :
    Yaml.integer? (c :: rest) =
      (digits? 10 (c :: rest)).map Int.ofNat := by
  have hPlus : c ≠ '+' := ne_of_isDigit hFirst (by decide)
  have hMinus : c ≠ '-' := ne_of_isDigit hFirst (by decide)
  unfold Yaml.integer?
  simp only [hSpare, Bool.false_eq_true, if_false]
  split
  · rename_i hEq
    exact absurd (List.cons.inj hEq).1 hMinus
  · rename_i hEq
    exact absurd (List.cons.inj hEq).1 hPlus
  · simp only [hBase]

/- A written integer is read as it. -/
theorem integer?_integerChars
    (value : Int) :
    Yaml.integer? (integerChars value) = some value := by
  have hBase := basedDigits?_toDigits value.natAbs
  have hSpare := hasSpareZero_toDigits value.natAbs
  have hRead := digits?_toDigits value.natAbs
  unfold integerChars
  cases hDigits : Nat.toDigits 10 value.natAbs with
  | nil => exact absurd hDigits Nat.toDigits_ne_nil
  | cons first rest =>
      have hFirst : first.isDigit = true :=
        isDigit_of_mem_toDigits (hDigits ▸ List.mem_cons_self)
      rw [hDigits] at hBase hSpare hRead
      split
      · rw [integer?_minus hFirst hBase hSpare, hRead,
          Option.map_some]
        congr 1
        omega
      · rw [integer?_unsigned hFirst hBase hSpare, hRead,
          Option.map_some]
        congr 1
        exact Int.natAbs_of_nonneg (by omega)

/- A text that writes an integer in range stands for it. -/
theorem ofPlain_of_integer?
    {n : Integer}
    (hFirst : c.isDigit = true ∨ c = '-')
    (hRead : Yaml.integer? (c :: rest) = some n.value) :
    Scalar.ofPlain (c :: rest) = .integer n := by
  have hScalar :
      Scalar.integer? (c :: rest) = some (.integer n) := by
    unfold Scalar.integer? Scalar.ofInteger?
    rw [hRead, Option.bind_some,
      (Integer.ofInt?_eq_some_iff n.value n).mpr rfl]
  unfold Scalar.ofPlain
  rw [if_neg (by simp [isNullWord_eq_false hFirst]),
    bool?_eq_none hFirst]
  simp only [hScalar]

/- A written integer stands for itself. -/
theorem ofPlain_integerChars
    (n : Integer) :
    Scalar.ofPlain (integerChars n.value) = .integer n := by
  have hRead := integer?_integerChars n.value
  cases hText : integerChars n.value with
  | nil =>
      rw [hText] at hRead
      cases hRead
  | cons first rest =>
      rw [hText] at hRead
      apply ofPlain_of_integer? _ hRead
      unfold integerChars at hText
      split at hText
      · exact Or.inr (List.cons.inj hText).1.symm
      · left
        apply isDigit_of_mem_toDigits (n := n.value.natAbs)
        rw [hText]
        exact List.mem_cons_self

end Yaml

end Transclusion

------------------------------------------------------------
-- Decimal Texts
------------------------------------------------------------

namespace Transclusion

namespace Yaml

variable {whole part tail : List Char}

/- Whether a text does not begin with a digit. -/
def NoDigitFirst
    (text : List Char) : Prop :=
  ∀ c ∈ text.head?, c.isDigit = false

/- Digits are taken up to what is none. -/
theorem takeWhile_isDigit
    (hWhole : ∀ c ∈ whole, c.isDigit = true)
    (hTail : NoDigitFirst tail) :
    (whole ++ tail).takeWhile Char.isDigit = whole ∧
      (whole ++ tail).dropWhile Char.isDigit = tail := by
  rw [List.takeWhile_append_of_pos hWhole,
    List.dropWhile_append_of_pos hWhole]
  cases tail with
  | nil => simp
  | cons c rest =>
      have hFirst : c.isDigit = false := hTail c rfl
      simp [hFirst]

/- A number with a point. -/
theorem decimal?_point
    (negative : Bool)
    (hWhole : ∀ c ∈ whole, c.isDigit = true)
    (hPart : ∀ c ∈ part, c.isDigit = true)
    (hTail : NoDigitFirst tail)
    (hSome : whole ≠ []) :
    decimal? negative (whole ++ '.' :: (part ++ tail)) =
      (exponent? tail).bind fun exponent =>
        Double.ofDecimal? negative
          (Nat.ofDigitChars 10 (whole ++ part) 0)
          (exponent - part.length) := by
  have hPoint : NoDigitFirst ('.' :: (part ++ tail)) := by
    rintro c hMem
    cases hMem
    rfl
  rcases takeWhile_isDigit hWhole hPoint with
    ⟨hTake, hDrop⟩
  rcases takeWhile_isDigit hPart hTail with
    ⟨hTakePart, hDropPart⟩
  unfold decimal?
  simp only [hTake, hDrop, hTakePart, hDropPart]
  rw [digits?_ten (by simp [hSome])
    (List.forall_mem_append.mpr ⟨hWhole, hPart⟩)]
  rfl

/- A number with an exponent and no point. -/
theorem decimal?_whole
    (negative : Bool)
    {mark : Char}
    (hWhole : ∀ c ∈ whole, c.isDigit = true)
    (hMark : mark.isDigit = false)
    (hPoint : mark ≠ '.')
    (hSome : whole ≠ []) :
    decimal? negative (whole ++ mark :: tail) =
      (exponent? (mark :: tail)).bind fun exponent =>
        Double.ofDecimal? negative
          (Nat.ofDigitChars 10 whole 0) exponent := by
  have hTail : NoDigitFirst (mark :: tail) := by
    rintro c hMem
    cases hMem
    exact hMark
  rcases takeWhile_isDigit hWhole hTail with
    ⟨hTake, hDrop⟩
  unfold decimal?
  simp only [hTake, hDrop]
  split
  · rename_i hEq
    exact absurd (List.cons.inj hEq).1 hPoint
  · rw [List.append_nil, digits?_ten hSome hWhole]
    simp

/- The exponent that a sign and digits write. -/
theorem exponent?_toDigits
    {plus : List Char}
    (hPlus : plus = [] ∨ plus = ['+'])
    (exponent : Int) :
    exponent?
        ('e' ::
          ((if exponent < 0 then ['-'] else plus) ++
            Nat.toDigits 10 exponent.natAbs)) =
      some exponent := by
  have hRead := digits?_toDigits exponent.natAbs
  unfold exponent?
  simp only [true_or, if_true]
  by_cases hNegative : exponent < 0
  · rw [if_pos hNegative]
    simp only [List.cons_append, List.nil_append, hRead]
    change some (-((exponent.natAbs : Nat) : Int)) = _
    congr 1
    omega
  · rw [if_neg hNegative]
    have hAbs : ((exponent.natAbs : Nat) : Int) = exponent :=
      Int.natAbs_of_nonneg (by omega)
    rcases hPlus with rfl | rfl
    · have hDigit (c : Char) :=
        isDigit_of_mem_toDigits (c := c) (n := exponent.natAbs)
      rw [List.nil_append]
      split
      · rename_i hEq
        exact
          absurd rfl
            (ne_of_isDigit
              (hDigit '-' (hEq ▸ List.mem_cons_self))
              (by decide))
      · rename_i hEq
        exact
          absurd rfl
            (ne_of_isDigit
              (hDigit '+' (hEq ▸ List.mem_cons_self))
              (by decide))
      · rw [hRead, Option.map_some]
        exact congrArg some hAbs
    · change (digits? 10
        (Nat.toDigits 10 exponent.natAbs)).map Int.ofNat = _
      rw [hRead, Option.map_some]
      exact congrArg some hAbs

/-
  A text of digits, a point or an exponent, and more, which
  writes a magnitude.
-/
structure WritesDecimal
    (text : List Char)
    (x : ℚ) : Prop where
  shape :
    ∃ whole mark tail,
      text = whole ++ mark :: tail ∧ whole ≠ [] ∧
        (∀ c ∈ whole, c.isDigit = true) ∧
          (mark = '.' ∨ mark = 'e')
  reads :
    ∃ (digits : Nat) (exponent : Int),
      digits * 10 ^ exponent = x ∧
        ∀ negative,
          decimal? negative text =
            Double.ofDecimal? negative digits exponent

/- A text with a point writes its digits. -/
theorem writesDecimal_point
    (whole part tail : List Char)
    {text : List Char}
    {exponent : Int}
    {x : ℚ}
    (hText : text = whole ++ '.' :: (part ++ tail))
    (hWhole : ∀ c ∈ whole, c.isDigit = true)
    (hPart : ∀ c ∈ part, c.isDigit = true)
    (hSome : whole ≠ [])
    (hTail : NoDigitFirst tail)
    (hExponent : exponent? tail = some exponent)
    (hMagnitude :
      Nat.ofDigitChars 10 (whole ++ part) 0 *
          10 ^ (exponent - part.length) = x) :
    WritesDecimal text x := by
  constructor
  · exact ⟨whole, '.', _, hText, hSome, hWhole, Or.inl rfl⟩
  · refine ⟨_, _, hMagnitude, ?_⟩
    intro negative
    rw [hText,
      decimal?_point negative hWhole hPart hTail hSome,
      hExponent, Option.bind_some]

/- A text with an exponent and no point writes its digits. -/
theorem writesDecimal_whole
    {text : List Char}
    {exponent : Int}
    {x : ℚ}
    (hText : text = whole ++ 'e' :: tail)
    (hWhole : ∀ c ∈ whole, c.isDigit = true)
    (hSome : whole ≠ [])
    (hExponent : exponent? ('e' :: tail) = some exponent)
    (hMagnitude :
      Nat.ofDigitChars 10 whole 0 * 10 ^ exponent = x) :
    WritesDecimal text x := by
  constructor
  · exact ⟨whole, 'e', tail, hText, hSome, hWhole, Or.inr rfl⟩
  · refine ⟨_, _, hMagnitude, ?_⟩
    intro negative
    rw [hText,
      decimal?_whole negative hWhole (by decide)
        (by decide) hSome, hExponent, Option.bind_some]

/- Nothing does not begin with a digit. -/
theorem noDigitFirst_nil :
    NoDigitFirst [] := by
  intro c hMem
  cases hMem

end Yaml

namespace Decimal

open Yaml

variable {d : Decimal}

/- The digits of a decimal are digits. -/
theorem isDigit_of_mem_digitText
    (c : Char)
    (hMem : c ∈ d.digitText) :
    c.isDigit = true :=
  isDigit_of_mem_toDigits hMem

/- The digits of a decimal write its digits. -/
theorem ofDigitChars_digitText
    (d : Decimal) :
    Nat.ofDigitChars 10 d.digitText 0 = d.digits :=
  Nat.ofDigitChars_ten_toDigits

/- A decimal has a digit. -/
theorem digitText_ne_nil
    (d : Decimal) :
    d.digitText ≠ [] :=
  Nat.toDigits_ne_nil

/- Zeros are digits. -/
theorem isDigit_of_mem_zeros
    {count : Nat}
    (c : Char)
    (hMem : c ∈ List.replicate count '0') :
    c.isDigit = true := by
  rw [List.eq_of_mem_replicate hMem]
  rfl

/- Zeros behind the digits and in front of the point. -/
theorem writesDecimal_zeros
    (hWhole : 0 ≤ d.exponent) :
    WritesDecimal
      (d.digitText ++ List.replicate d.exponent.toNat '0' ++
        ['.', '0'])
      d.magnitude := by
  apply writesDecimal_point _ ['0'] [] rfl
    (List.forall_mem_append.mpr
      ⟨isDigit_of_mem_digitText, isDigit_of_mem_zeros⟩)
    (List.forall_mem_singleton.mpr rfl) _ noDigitFirst_nil rfl
  · rw [Nat.ofDigitChars_append, Nat.ofDigitChars_append,
      Nat.ofDigitChars_replicate_zero,
      ofDigitChars_digitText]
    have hPower :
        (10 : ℚ) ^ d.exponent = 10 ^ d.exponent.toNat := by
      rw [← zpow_natCast, Int.toNat_of_nonneg hWhole]
    unfold magnitude
    rw [hPower]
    simp [Nat.ofDigitChars]
    ring
  · simp [digitText_ne_nil]

/- A point among the digits. -/
theorem writesDecimal_inside
    (hFraction : d.exponent < 0)
    (hPoint : 0 < d.point) :
    WritesDecimal
      (d.digitText.take d.point.toNat ++
        '.' :: d.digitText.drop d.point.toNat)
      d.magnitude := by
  have hLength :
      ((d.digitText.drop d.point.toNat).length : Int) =
        -d.exponent := by
    unfold point at hPoint ⊢
    rw [List.length_drop]
    omega
  apply writesDecimal_point _
    (d.digitText.drop d.point.toNat) []
    (by rw [List.append_nil]) _ _ _ noDigitFirst_nil rfl
  · rw [List.take_append_drop, ofDigitChars_digitText,
      hLength, Int.zero_sub, Int.neg_neg]
    rfl
  · intro c hMem
    exact isDigit_of_mem_digitText c (List.mem_of_mem_take hMem)
  · intro c hMem
    exact isDigit_of_mem_digitText c (List.mem_of_mem_drop hMem)
  · intro hNone
    rcases List.take_eq_nil_iff.mp hNone with
      hZero | hEmpty
    · omega
    · exact digitText_ne_nil d hEmpty

/- Zeros behind the point and in front of the digits. -/
theorem writesDecimal_below
    (hPoint : d.point ≤ 0) :
    WritesDecimal
      (['0', '.'] ++
        List.replicate (-d.point).toNat '0' ++ d.digitText)
      d.magnitude := by
  apply writesDecimal_point ['0']
    (List.replicate (-d.point).toNat '0' ++ d.digitText) []
    (by simp) (List.forall_mem_singleton.mpr rfl)
    (List.forall_mem_append.mpr
      ⟨isDigit_of_mem_zeros, isDigit_of_mem_digitText⟩)
    (by decide) noDigitFirst_nil rfl
  have hLength :
      ((List.replicate (-d.point).toNat '0' ++
          d.digitText).length : Int) =
        -d.exponent := by
    unfold point at hPoint ⊢
    rw [List.length_append, List.length_replicate]
    omega
  rw [hLength, Nat.ofDigitChars_append,
    Nat.ofDigitChars_append, Nat.ofDigitChars_replicate_zero,
    Int.zero_sub, Int.neg_neg]
  have hZero : Nat.ofDigitChars 10 ['0'] 0 = 0 := rfl
  rw [hZero, Nat.mul_zero, ofDigitChars_digitText]
  rfl

/- A decimal without an exponent. -/
theorem writesDecimal_positional
    (d : Decimal) :
    WritesDecimal d.positional d.magnitude := by
  unfold positional
  simp only
  split
  · rename_i hWhole
    exact writesDecimal_zeros hWhole
  · rename_i hFraction
    split
    · rename_i hPoint
      exact writesDecimal_inside (by omega) hPoint
    · rename_i hPoint
      exact writesDecimal_below (by omega)

/- A decimal with one digit before the point. -/
theorem writesDecimal_scientific
    {layout : Layout}
    (hPlus : layout.plus = [] ∨ layout.plus = ['+'])
    (d : Decimal) :
    WritesDecimal (d.scientific layout) d.magnitude := by
  have hExponent := exponent?_toDigits hPlus (d.point - 1)
  have hDigit : ∀ c ∈ d.digitText, c.isDigit = true :=
    isDigit_of_mem_digitText
  have hRead := ofDigitChars_digitText d
  have hSome := digitText_ne_nil d
  unfold scientific
  unfold point at hExponent ⊢
  simp only
  split
  · rename_i hNone
    exact absurd hNone hSome
  · rename_i digit hDigits
    rw [hDigits] at hDigit hRead hExponent ⊢
    apply writesDecimal_whole _ hDigit (by simp) hExponent
    · rw [hRead]
      unfold magnitude
      congr 2
      simp
    · rfl
  · rename_i digit rest hMore hDigits
    rw [hDigits] at hDigit hRead hExponent ⊢
    rw [List.forall_mem_cons] at hDigit
    apply writesDecimal_point [digit] rest _ (by simp)
      (by simp [hDigit.1])
      hDigit.2 (by simp) _ hExponent
    · rw [List.singleton_append, hRead]
      unfold magnitude
      congr 2
      rw [List.length_cons]
      omega
    · rintro c hMem
      cases hMem
      rfl

/- A decimal in a layout. -/
theorem writesDecimal_text
    {layout : Layout}
    (hPlus : layout.plus = [] ∨ layout.plus = ['+'])
    (d : Decimal) :
    WritesDecimal (d.text layout) d.magnitude := by
  unfold text
  split
  · exact writesDecimal_positional d
  · exact writesDecimal_scientific hPlus d

end Decimal

end Transclusion

------------------------------------------------------------
-- Binary64 Numbers
------------------------------------------------------------

namespace Transclusion

namespace Yaml

variable {c : Char}
variable {rest body : List Char}
variable {x : ℚ}

/- A number with a point or an exponent begins with a digit. -/
theorem WritesDecimal.exists_cons
    (hWrites : WritesDecimal body x) :
    ∃ first more mark,
      body = first :: more ∧ first.isDigit = true ∧
        mark ∈ more ∧ mark.isDigit = false := by
  rcases hWrites.shape with
    ⟨whole, mark, tail, hBody, hSome, hWhole, hMark⟩
  cases whole with
  | nil => exact absurd rfl hSome
  | cons first more =>
      refine
        ⟨first, more ++ mark :: tail, mark, hBody,
          hWhole first List.mem_cons_self, by simp, ?_⟩
      rcases hMark with rfl | rfl <;> rfl

/- A number with a point or an exponent has no base. -/
theorem WritesDecimal.basedDigits?_eq_none
    (hWrites : WritesDecimal body x) :
    basedDigits? body = none := by
  rcases hWrites.shape with
    ⟨whole, mark, tail, hBody, hSome, hWhole, hMark⟩
  apply Yaml.basedDigits?_eq_none
  intro first second more hEq
  rw [hBody] at hEq
  match whole, hSome with
  | [_], _ =>
      cases hEq
      rcases hMark with rfl | rfl <;> decide
  | _ :: other :: _, _ =>
      cases hEq
      have hDigit : second.isDigit = true :=
        hWhole second (by simp)
      exact
        ⟨ne_of_isDigit hDigit (by decide),
          ne_of_isDigit hDigit (by decide),
          ne_of_isDigit hDigit (by decide)⟩

/- Digits that end before a mark have no zero to spare. -/
theorem hasSpareZero_eq_false
    {mark : Char}
    (hFirst : c.isDigit = true)
    (hMem : mark ∈ rest)
    (hMark : mark.isDigit = false) :
    hasSpareZero (c :: rest) = false := by
  unfold hasSpareZero
  rw [dropSign_of_isDigit hFirst]
  split
  · rename_i second more hEq
    cases hEq
    apply Bool.eq_false_iff.mpr
    intro hAll
    have hDigit := List.all_eq_true.mp hAll mark hMem
    rw [hMark] at hDigit
    cases hDigit
  · rfl

/- Digits that end before a mark are no integer. -/
theorem integer?_signText
    (d : Double)
    (hWrites : WritesDecimal body x) :
    Yaml.integer? (d.signText ++ body) = none := by
  have hBase := hWrites.basedDigits?_eq_none
  rcases hWrites.exists_cons with
    ⟨first, more, mark, rfl, hFirst, hMem, hMark⟩
  have hSpare := hasSpareZero_eq_false hFirst hMem hMark
  have hNone :=
    digits?_ten_eq_none (List.mem_cons_of_mem first hMem)
      hMark
  unfold Double.signText
  split
  · rw [List.singleton_append,
      integer?_minus hFirst hBase hSpare, hNone]
    rfl
  · rw [List.nil_append,
      integer?_unsigned hFirst hBase hSpare, hNone]
    rfl

/- What begins with a digit is read by its decimal digits. -/
theorem double?_unsigned
    (hFirst : c.isDigit = true) :
    double? (c :: rest) =
      (decimal? false (c :: rest)).map .finite := by
  have hPlus : c ≠ '+' := ne_of_isDigit hFirst (by decide)
  have hMinus : c ≠ '-' := ne_of_isDigit hFirst (by decide)
  have hPoint : c ≠ '.' := ne_of_isDigit hFirst (by decide)
  simp [double?, finite?, hPlus, hMinus, hPoint]

/- A minus in front of a digit is the sign of a number. -/
theorem double?_minus
    (hFirst : c.isDigit = true) :
    double? ('-' :: c :: rest) =
      (decimal? true (c :: rest)).map .finite := by
  have hPoint : c ≠ '.' := ne_of_isDigit hFirst (by decide)
  simp [double?, finite?, hPoint]

/- The digits of a number, with its sign, are read as it. -/
theorem double?_signText
    (d : Double)
    (hWrites : WritesDecimal body d.shortest.magnitude) :
    double? (d.signText ++ body) = some (.finite d) := by
  rcases hWrites.reads with
    ⟨digits, exponent, hMagnitude, hRead⟩
  have hNumber := Double.ofDecimal?_of_magnitude_eq hMagnitude
  rcases hWrites.exists_cons with
    ⟨first, more, mark, rfl, hFirst, hMem, hMark⟩
  unfold Double.signText
  split
  · rename_i hNegative
    rw [hNegative] at hNumber
    rw [List.singleton_append, double?_minus hFirst, hRead,
      hNumber]
    rfl
  · rename_i hPositive
    rw [Bool.not_eq_true] at hPositive
    rw [hPositive] at hNumber
    rw [List.nil_append, double?_unsigned hFirst, hRead,
      hNumber]
    rfl

/- The digits of a number, with its sign, stand for it. -/
theorem ofPlain_signText
    (d : Double)
    (hWrites : WritesDecimal body d.shortest.magnitude) :
    Scalar.ofPlain (d.signText ++ body) =
      .double (.finite d) := by
  have hDouble := double?_signText d hWrites
  have hNone := integer?_signText d hWrites
  have hInteger :
      Scalar.integer? (d.signText ++ body) = none := by
    unfold Scalar.integer?
    rw [hNone]
    rfl
  rcases hWrites.exists_cons with
    ⟨first, more, mark, rfl, hFirst, hMem, hMark⟩
  have hSpare := hasSpareZero_eq_false hFirst hMem hMark
  rw [← hasSpareZero_minus hFirst] at hSpare
  have hSpare :
      hasSpareZero (d.signText ++ first :: more) = false := by
    unfold Double.signText
    split
    · exact hSpare
    · exact hasSpareZero_eq_false hFirst hMem hMark
  have hHead :
      ∃ c rest, d.signText ++ first :: more = c :: rest ∧
        (c.isDigit = true ∨ c = '-') := by
    unfold Double.signText
    split
    · exact ⟨'-', _, rfl, Or.inr rfl⟩
    · exact ⟨first, more, rfl, Or.inl hFirst⟩
  rcases hHead with ⟨c, rest, hText, hHead⟩
  rw [hText] at hInteger hDouble hSpare ⊢
  unfold Scalar.ofPlain
  rw [if_neg (by simp [isNullWord_eq_false hHead]),
    bool?_eq_none hHead]
  simp only [hInteger, hSpare, hDouble, Bool.false_eq_true,
    if_false]

end Yaml

end Transclusion

------------------------------------------------------------
-- Numbers
------------------------------------------------------------

namespace Transclusion

/- The scalar of a number. -/
def Number.scalar : Number → Yaml.Scalar
  | .integer n => .integer n
  | .double d => .double (.finite d)

namespace Yaml

/- A written number stands for itself. -/
theorem ofPlain_numberText
    {layout : Layout}
    (hPlus : layout.plus = [] ∨ layout.plus = ['+'])
    (n : Number) :
    Scalar.ofPlain (n.text layout).toList = n.scalar := by
  cases n with
  | integer n =>
      unfold Number.text integerText
      rw [String.toList_ofList]
      exact ofPlain_integerChars n
  | double d =>
      unfold Number.text Double.text
      rw [String.toList_ofList]
      exact
        ofPlain_signText d
          (Decimal.writesDecimal_text hPlus d.shortest)

end Yaml

end Transclusion
