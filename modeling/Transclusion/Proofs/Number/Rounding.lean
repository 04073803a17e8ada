import Mathlib.Data.Rat.Cast.Order
import Mathlib.Tactic.FieldSimp
import Mathlib.Tactic.Linarith
import Mathlib.Tactic.Ring
import Transclusion.Number.Shortest

/-
  Rounding to binary64 numbers.

  Key definitions include:
    * `Transclusion.RoundingInterval.Holds`

  Key theorems include:
    * `Transclusion.roundHalfEven_eq`
    * `Transclusion.Double.ofRatio?_of_contains`

  Every quotient in the rounding interval of a number rounds
  to that number.  Below a power of two the numbers are half
  as far apart, and the significand that is found there
  carries over into the power.
-/

------------------------------------------------------------
-- Nearest Integers
------------------------------------------------------------

namespace Transclusion

/-
  A quotient no further than one half from an integer rounds
  to it, if the integer is even or the distance smaller.
-/
theorem roundHalfEven_eq
    {numerator denominator n : Nat}
    (hPos : 0 < denominator)
    (hLower :
      2 * (n * denominator) ≤ 2 * numerator + denominator)
    (hUpper :
      2 * numerator ≤ 2 * (n * denominator) + denominator)
    (hTie :
      n % 2 = 1 →
        2 * (n * denominator) ≠
            2 * numerator + denominator ∧
          2 * numerator ≠
            2 * (n * denominator) + denominator) :
    roundHalfEven numerator denominator = n := by
  have hSum := Nat.div_add_mod numerator denominator
  have hRest := Nat.mod_lt numerator hPos
  unfold roundHalfEven
  generalize numerator / denominator = quotient at hSum ⊢
  generalize numerator % denominator = rest at hSum hRest ⊢
  have hAbove : quotient ≤ n := by
    by_contra hLess
    have hStep :
        (n + 1) * denominator ≤ quotient * denominator :=
      Nat.mul_le_mul_right _ (by omega)
    rw [Nat.add_mul, Nat.mul_comm quotient] at hStep
    omega
  have hBelow : n ≤ quotient + 1 := by
    by_contra hLess
    have hStep :
        (quotient + 2) * denominator ≤ n * denominator :=
      Nat.mul_le_mul_right _ (by omega)
    rw [Nat.add_mul, Nat.mul_comm quotient] at hStep
    omega
  simp only [Bool.or_eq_true, Bool.and_eq_true,
    decide_eq_true_eq, beq_iff_eq]
  rcases (by omega : n = quotient ∨ n = quotient + 1) with
    rfl | rfl
  · rw [Nat.mul_comm n] at hLower hUpper hTie
    rw [if_neg (by omega)]
  · rw [Nat.add_mul, Nat.mul_comm quotient]
      at hLower hUpper hTie
    rw [if_pos (by omega)]

end Transclusion

------------------------------------------------------------
-- Quotients
------------------------------------------------------------

namespace Transclusion

namespace Double

/- Which power a quotient is rounded at. -/
theorem ofRatio?_eq_ofParts?
    {numerator denominator n power : Nat}
    (negative : Bool)
    (hPos : 0 < denominator)
    (hLower :
      power = 0 ∨
        4503599627370496 * (denominator * Nat.pow 2 power) ≤
          numerator * Nat.pow 2 1074)
    (hUpper :
      numerator * Nat.pow 2 1074 <
        9007199254740992 * (denominator * Nat.pow 2 power))
    (hRound :
      roundHalfEven (numerator * Nat.pow 2 1074)
        (denominator * Nat.pow 2 power) = n) :
    ofRatio? negative numerator denominator =
      ofParts? negative n power := by
  unfold ofRatio?
  generalize numerator * Nat.pow 2 1074 = units at *
  have hPower :
      (if units / denominator < 9007199254740992 then 0
        else (units / denominator).log2 - 52) = power := by
    rcases Nat.eq_zero_or_pos power with rfl | hPower
    · rw [if_pos]
      apply (Nat.div_lt_iff_lt_mul hPos).mpr
      simpa using hUpper
    · have hLower := hLower.resolve_left (by omega)
      have hWide :
          2 ^ (power + 52) ≤ units / denominator := by
        apply (Nat.le_div_iff_mul_le hPos).mpr
        refine Nat.le_trans (Nat.le_of_eq ?_) hLower
        change _ = 2 ^ 52 * (denominator * 2 ^ power)
        ring
      have hNarrow :
          units / denominator < 2 ^ (power + 52 + 1) := by
        apply (Nat.div_lt_iff_lt_mul hPos).mpr
        refine Nat.lt_of_lt_of_eq hUpper ?_
        change 2 ^ 53 * (denominator * 2 ^ power) = _
        ring
      have hLarge : 2 ^ 53 ≤ units / denominator :=
        Nat.le_trans
          (Nat.pow_le_pow_right (by omega) (by omega)) hWide
      have hLog :
          (units / denominator).log2 = power + 52 :=
        (Nat.log2_eq_iff (by omega)).mpr ⟨hWide, hNarrow⟩
      rw [if_neg (by omega), hLog]
      omega
  simp only [hPower, hRound]

/- A number is made of its parts. -/
theorem ofParts?_self
    (d : Double) :
    ofParts? d.negative d.significand d.power =
      some d := by
  unfold ofParts?
  rw [dif_pos ⟨d.significand_lt, d.power_le, d.normal⟩]

/- A number without digits is zero. -/
theorem eq_zero_of_significand
    (d : Double)
    (hNone : d.significand = 0) :
    d = zero d.negative := by
  rcases d with ⟨negative, significand, power, _, _, hNormal⟩
  subst hNone
  have hPower : power = 0 := by omega
  subst hPower
  rfl

/- A power of two is also made of the parts below it. -/
theorem ofParts?_carry
    {power : Nat}
    (d : Double)
    (hSignificand : d.significand = 4503599627370496)
    (hPower : d.power = power + 1) :
    ofParts? d.negative 9007199254740992 power =
      some d := by
  rcases d with ⟨negative, significand, above, hS, hP, hN⟩
  subst hSignificand hPower
  unfold ofParts?
  rw [dif_neg (by omega), dif_pos ⟨rfl, hP⟩]

end Double

end Transclusion

------------------------------------------------------------
-- Rounding Intervals
------------------------------------------------------------

namespace Transclusion

namespace RoundingInterval

/- How many units of an interval there are in one. -/
@[irreducible]
def unitsInOne : Nat :=
  Nat.pow 2 1076

/- A unit is a quarter of the smallest positive number. -/
theorem unitsInOne_eq :
    unitsInOne = 4 * Nat.pow 2 1074 := by
  decide +kernel

/- There is at least one unit. -/
theorem unitsInOne_pos :
    0 < unitsInOne := by
  decide +kernel

variable {interval : RoundingInterval}

/- Whether a magnitude lies inside. -/
def Holds
    (interval : RoundingInterval)
    (x : ℚ) : Prop :=
  interval.low < x * unitsInOne ∧
      x * unitsInOne < interval.high ∨
    interval.closed = true ∧
      (x * unitsInOne = interval.low ∨
        x * unitsInOne = interval.high)

/- What lies inside lies between the ends. -/
theorem Holds.bounds
    {x : ℚ}
    (hIn : interval.Holds x)
    (hOrder : interval.low ≤ interval.high) :
    interval.low ≤ x * unitsInOne ∧
      x * unitsInOne ≤ interval.high := by
  have hOrder : (interval.low : ℚ) ≤ interval.high := by
    exact_mod_cast hOrder
  rcases hIn with ⟨hAbove, hBelow⟩ | ⟨_, hEnd | hEnd⟩
  · exact ⟨hAbove.le, hBelow.le⟩
  · exact ⟨hEnd.ge, hEnd.le.trans hOrder⟩
  · exact ⟨hOrder.trans hEnd.ge, hEnd.le⟩

/-
  A grid point lies inside if the quotient that it stands
  for does.
-/
theorem contains_iff_holds
    {numerator denominator : Nat}
    (hPos : 0 < denominator) :
    interval.contains denominator
        (numerator * unitsInOne) = true ↔
      interval.Holds (numerator / denominator) := by
  have hStretch : (0 : ℚ) < denominator := by
    exact_mod_cast hPos
  have hPoint :
      (numerator / denominator * unitsInOne : ℚ) =
        (numerator * unitsInOne : ℕ) / denominator := by
    push_cast
    ring
  unfold contains Holds
  rw [hPoint, lt_div_iff₀ hStretch, div_lt_iff₀ hStretch,
    div_eq_iff hStretch.ne', div_eq_iff hStretch.ne']
  simp only [Bool.or_eq_true, Bool.and_eq_true,
    decide_eq_true_eq, beq_iff_eq]
  norm_cast

end RoundingInterval

namespace Double

open RoundingInterval

/-
  The bounds that a quotient in the interval of a number
  keeps, counted in units of the number's last bit.
-/
theorem bounds_of_contains
    {d : Double}
    {numerator denominator : Nat}
    (hSome : d.significand ≠ 0)
    (hIn :
      (ofDouble d).contains denominator
        (numerator * unitsInOne) = true) :
    let unit := denominator * Nat.pow 2 d.power
    let units := numerator * Nat.pow 2 1074
    2 * (d.significand * unit) ≤ 2 * units + unit ∧
      2 * units ≤ 2 * (d.significand * unit) + unit ∧
      (d.significand % 2 = 1 →
        2 * (d.significand * unit) ≠ 2 * units + unit ∧
          2 * units ≠ 2 * (d.significand * unit) + unit) ∧
      (d.significand = 4503599627370496 → 0 < d.power →
        4 * (d.significand * unit) ≤ 4 * units + unit) := by
  intro unit units
  have hPoint : numerator * unitsInOne = 4 * units := by
    have hUnits := unitsInOne_eq
    unfold units
    generalize Nat.pow 2 1074 = smallest at hUnits ⊢
    rw [hUnits, Nat.mul_left_comm]
  have hValue :
      4 * d.significand * Nat.pow 2 d.power * denominator =
        4 * (d.significand * unit) := by
    ring
  have hUnit : Nat.pow 2 d.power * denominator = unit := by
    ring
  have hTwo :
      2 * Nat.pow 2 d.power * denominator = 2 * unit := by
    ring
  have hWide : 4 * unit ≤ 4 * (d.significand * unit) := by
    apply Nat.mul_le_mul_left
    exact Nat.le_mul_of_pos_left unit (by omega)
  simp only [contains, ofDouble, hPoint, Nat.sub_mul,
    Nat.add_mul, hValue, Bool.or_eq_true, Bool.and_eq_true,
    decide_eq_true_eq, beq_iff_eq] at hIn
  rw [hTwo] at hIn
  split at hIn
  · rw [hUnit] at hIn
    refine ⟨by omega, by omega, by omega, ?_⟩
    intro _hSignificand _hPower
    omega
  · rename_i hFull
    rw [hTwo] at hIn
    refine ⟨by omega, by omega, by omega, ?_⟩
    intro hSignificand hPower
    exact absurd ⟨hSignificand, hPower⟩ hFull

/-
  A quotient in the interval of a number rounds to it.  One
  below a power of two is counted in half units, and its
  significand carries over.
-/
theorem ofRatio?_of_contains
    {d : Double}
    {numerator denominator : Nat}
    (hSome : d.significand ≠ 0)
    (hPos : 0 < denominator)
    (hIn :
      (ofDouble d).contains denominator
        (numerator * unitsInOne) = true) :
    ofRatio? d.negative numerator denominator = some d := by
  have hLess := d.significand_lt
  have hUnit : 0 < denominator * Nat.pow 2 d.power :=
    Nat.mul_pos hPos (Nat.pow_pos (by omega))
  rcases bounds_of_contains hSome hIn with
    ⟨hLower, hUpper, hTie, hHalf⟩
  by_cases hCarry :
      d.significand = 4503599627370496 ∧ 0 < d.power ∧
        numerator * Nat.pow 2 1074 <
          4503599627370496 *
            (denominator * Nat.pow 2 d.power)
  · rcases hCarry with ⟨hSignificand, hPower, hSmall⟩
    have hHalf := hHalf hSignificand hPower
    rcases Nat.exists_eq_add_one_of_ne_zero
        (Nat.ne_of_gt hPower) with ⟨power, hPower⟩
    have hDouble :
        denominator * Nat.pow 2 d.power =
          2 * (denominator * Nat.pow 2 power) := by
      rw [hPower, Nat.pow_eq, Nat.pow_eq]
      ring
    rw [hSignificand, hDouble] at hHalf
    rw [hDouble] at hSmall hUnit
    rw [← ofParts?_carry d hSignificand hPower]
    apply ofRatio?_eq_ofParts? _ hPos
    · right
      omega
    · omega
    · apply roundHalfEven_eq <;> omega
  · rw [← ofParts?_self d]
    apply ofRatio?_eq_ofParts? _ hPos
    · rcases d.normal with hZero | hFull
      · exact Or.inl hZero
      · by_cases hPowerOfTwo :
            d.significand = 4503599627370496
        · rw [hPowerOfTwo] at hCarry
          omega
        · right
          have hMore :
              4503599627370497 *
                  (denominator * Nat.pow 2 d.power) ≤
                d.significand *
                  (denominator * Nat.pow 2 d.power) :=
            Nat.mul_le_mul_right _ (by omega)
          rw [Nat.succ_mul] at hMore
          omega
    · have hNext :=
        Nat.mul_le_mul_right
          (denominator * Nat.pow 2 d.power)
          (Nat.succ_le_of_lt hLess)
      rw [Nat.succ_mul] at hNext
      omega
    · exact roundHalfEven_eq hUnit hLower hUpper hTie

end Double

end Transclusion
