/-
  Finite binary64 numbers and their exact reading from
  decimal digits.

  Key definitions include:
    * `Transclusion.Double`
    * `Transclusion.Double.numEq`
    * `Transclusion.roundHalfEven`
    * `Transclusion.Double.ofRatio?`
    * `Transclusion.Double.ofDecimal?`

  Key theorems include:
    * `Transclusion.Double.numEq_refl`
    * `Transclusion.Double.numEq_symm`
    * `Transclusion.Double.numEq_trans`

  A magnitude is a significand below `2 ^ 53` times a power
  of two, counted in units of `2 ^ -1074`, the smallest
  positive number of the format.  Either the power is zero
  or the significand has all of its 53 bits, so that each
  magnitude has one representation.
-/

------------------------------------------------------------
-- Representation
------------------------------------------------------------

namespace Transclusion

/-
  A finite binary64 number
  `± significand * 2 ^ power * 2 ^ -1074`.  The bounds are
  `2 ^ 53` and `2 ^ 52`.
-/
structure Double where
  negative : Bool
  significand : Nat
  power : Nat
  significand_lt : significand < 9007199254740992 := by
    decide
  power_le : power ≤ 2045 := by decide
  normal : power = 0 ∨ 4503599627370496 ≤ significand := by
    decide
  deriving DecidableEq

namespace Double

/- Zero with a sign. -/
def zero
    (negative : Bool) : Double where
  negative := negative
  significand := 0
  power := 0

/-
  The number as an integer, in units of `2 ^ -1074`.
-/
def scaled
    (d : Double) : Int :=
  let magnitude : Nat := d.significand * Nat.pow 2 d.power
  if d.negative then -magnitude else magnitude

/-
  Equality of numbers: the two zeros are one number.
-/
def numEq
    (a b : Double) : Bool :=
  a.significand == b.significand &&
    a.power == b.power &&
    (a.negative == b.negative || a.significand == 0)

/- Every number equals itself. -/
theorem numEq_refl
    (a : Double) : a.numEq a = true := by
  simp [numEq]

/- Equality of numbers has no direction. -/
theorem numEq_symm
    {a b : Double}
    (h : a.numEq b = true) : b.numEq a = true := by
  simp only [numEq, Bool.and_eq_true, Bool.or_eq_true,
    beq_iff_eq] at h ⊢
  obtain ⟨⟨hs, hp⟩, hn⟩ := h
  refine ⟨⟨hs.symm, hp.symm⟩, ?_⟩
  rcases hn with hn | hn
  · exact Or.inl hn.symm
  · exact Or.inr (hs ▸ hn)

/- Numbers equal to one number are equal. -/
theorem numEq_trans
    {a b c : Double}
    (h : a.numEq b = true)
    (k : b.numEq c = true) : a.numEq c = true := by
  simp only [numEq, Bool.and_eq_true, Bool.or_eq_true,
    beq_iff_eq] at h k ⊢
  obtain ⟨⟨hs, hp⟩, hn⟩ := h
  obtain ⟨⟨ks, kp⟩, kn⟩ := k
  refine ⟨⟨hs.trans ks, hp.trans kp⟩, ?_⟩
  rcases hn with hn | hn
  · rcases kn with kn | kn
    · exact Or.inl (hn.trans kn)
    · exact Or.inr (hs.trans kn)
  · exact Or.inr hn

end Double

end Transclusion

------------------------------------------------------------
-- Rounding
------------------------------------------------------------

namespace Transclusion

/-
  The integer nearest to a quotient; a tie goes to the even
  neighbour.
-/
def roundHalfEven
    (numerator denominator : Nat) : Nat :=
  let quotient := numerator / denominator
  let twice := 2 * (numerator % denominator)
  if denominator < twice ||
      (denominator == twice && quotient % 2 == 1) then
    quotient + 1
  else
    quotient

namespace Double

/-
  The finite number with a given significand and power, if
  it is one; a significand of `2 ^ 53` carries over into the
  power.
-/
def ofParts?
    (negative : Bool)
    (significand power : Nat) : Option Double :=
  if h : significand < 9007199254740992 ∧ power ≤ 2045 ∧
      (power = 0 ∨ 4503599627370496 ≤ significand) then
    some ⟨negative, significand, power, h.1, h.2.1, h.2.2⟩
  else if h : significand = 9007199254740992 ∧
      power + 1 ≤ 2045 then
    some ⟨negative, 4503599627370496, power + 1,
      by decide, h.2, Or.inr (Nat.le_refl _)⟩
  else
    none

/-
  The number nearest to a quotient of natural numbers, if it
  is finite.
-/
def ofRatio?
    (negative : Bool)
    (numerator denominator : Nat) : Option Double :=
  let units := numerator * Nat.pow 2 1074
  let whole := units / denominator
  let power :=
    if whole < 9007199254740992 then 0
    else whole.log2 - 52
  ofParts? negative
    (roundHalfEven units (denominator * Nat.pow 2 power))
    power

/-
  The number nearest to `digits * 10 ^ exponent`, if it is
  finite.  From `10 ^ 310` on no number is, and below
  `10 ^ -330` all of them round to zero.
-/
def ofDecimal?
    (negative : Bool)
    (digits : Nat)
    (exponent : Int) : Option Double :=
  let magnitude : Int :=
    (Nat.toDigits 10 digits).length + exponent
  if digits = 0 ∨ magnitude < -330 then
    some (zero negative)
  else if 310 < magnitude then
    none
  else if 0 ≤ exponent then
    ofRatio? negative (digits * Nat.pow 10 exponent.toNat)
      1
  else
    ofRatio? negative digits (Nat.pow 10 (-exponent).toNat)

end Double

end Transclusion
