import Mathlib.Algebra.Order.Field.Power
import Transclusion.Proofs.Number.Rounding

/-
  The decimal digits of a binary64 number read back as it.

  Key definitions include:
    * `Transclusion.Decimal.magnitude`

  Key theorems include:
    * `Transclusion.Double.holds_shortest`
    * `Transclusion.Double.ofDecimal?_of_magnitude_eq`

  The eighteenth grid of the search is finer than the half
  of the interval below its number, so that the search ends
  on it at the latest.
-/

------------------------------------------------------------
-- Magnitudes of Decimals
------------------------------------------------------------

namespace Transclusion

namespace Decimal

/- The number that digits and an exponent stand for. -/
def magnitude
    (d : Decimal) : ℚ :=
  d.digits * 10 ^ d.exponent

/- Trailing zeros and the exponent make up for each other. -/
theorem magnitude_trimZeros
    (fuel : Nat)
    (d : Decimal) :
    (trimZeros fuel d).magnitude = d.magnitude := by
  induction fuel generalizing d with
  | zero => rfl
  | succ fuel ih =>
      unfold trimZeros
      by_cases hZero : d.digits ≠ 0 ∧ d.digits % 10 = 0
      · rw [if_pos hZero, ih]
        have hDigits :
            (d.digits : ℚ) = (d.digits / 10 : ℕ) * 10 := by
          exact_mod_cast
            (Nat.div_mul_cancel
              (Nat.dvd_of_mod_eq_zero hZero.2)).symm
        unfold magnitude
        rw [hDigits, zpow_add_one₀ (by norm_num)]
        ring
      · rw [if_neg hZero]

/-
  A search through grids of which one has a point gives a
  point of some grid.
-/
theorem exists_magnitude_search
    {onGrid? : Int → Option Nat}
    {fuel steps : Nat}
    {exponent : Int}
    (hLess : steps < fuel)
    (hSome : onGrid? (exponent - steps) ≠ none) :
    ∃ place digits,
      onGrid? place = some digits ∧
        (search onGrid? fuel exponent).magnitude =
          digits * 10 ^ place := by
  induction fuel generalizing exponent steps with
  | zero => omega
  | succ fuel ih =>
      unfold search
      cases hHere : onGrid? exponent with
      | some digits =>
          refine ⟨exponent, digits, hHere, ?_⟩
          rw [magnitude_trimZeros]
          rfl
      | none =>
          cases steps with
          | zero =>
              rw [Int.natCast_zero, Int.sub_zero] at hSome
              exact absurd hHere hSome
          | succ steps =>
              rw [Int.natCast_succ, Int.add_comm,
                ← Int.sub_sub] at hSome
              exact ih (by omega) hSome

end Decimal

end Transclusion

------------------------------------------------------------
-- Grids
------------------------------------------------------------

namespace Transclusion

namespace RoundingInterval

variable {interval : RoundingInterval}
variable {exponent : Int}

/- A power of ten as a quotient of natural numbers. -/
theorem ten_zpow_eq_div
    (exponent : Int) :
    (10 : ℚ) ^ exponent =
      (10 ^ exponent.toNat : ℕ) /
        (10 ^ (-exponent).toNat : ℕ) := by
  push_cast
  rw [← zpow_natCast, ← zpow_natCast, ← zpow_sub₀
    (by norm_num)]
  congr 1
  omega

/- The point that a grid gives lies in the interval. -/
theorem contains_of_nearestOnGrid?
    {digits : Nat}
    (hSome : interval.nearestOnGrid? exponent = some digits) :
    interval.contains (Nat.pow 10 (-exponent).toNat)
      (digits * (Nat.pow 10 exponent.toNat * unitsInOne)) =
      true := by
  unfold nearestOnGrid? at hSome
  unfold unitsInOne
  generalize Nat.pow 2 1076 = units at hSome ⊢
  simp only [Bool.and_eq_true] at hSome
  split at hSome
  · rename_i hBoth
    split at hSome
    · cases hSome
      exact hBoth.1
    · cases hSome
      exact hBoth.2
  · split at hSome
    · cases hSome
      assumption
    · split at hSome
      · cases hSome
        assumption
      · cases hSome

/- A grid whose lower neighbour lies inside has a point. -/
theorem nearestOnGrid?_ne_none_of_contains
    (hLower :
      interval.contains (Nat.pow 10 (-exponent).toNat)
        (interval.value * Nat.pow 10 (-exponent).toNat /
            (Nat.pow 10 exponent.toNat * unitsInOne) *
          (Nat.pow 10 exponent.toNat * unitsInOne)) =
        true) :
    interval.nearestOnGrid? exponent ≠ none := by
  unfold nearestOnGrid?
  unfold unitsInOne at hLower
  generalize Nat.pow 2 1076 = units at hLower ⊢
  simp only [hLower, Bool.true_and, if_true]
  split
  · split <;> simp
  · simp

/- The point that a grid gives stands for a magnitude inside. -/
theorem holds_of_nearestOnGrid?
    {digits : Nat}
    (hSome : interval.nearestOnGrid? exponent = some digits) :
    interval.Holds (digits * 10 ^ exponent) := by
  have hStretch : 0 < Nat.pow 10 (-exponent).toNat :=
    Nat.pow_pos (by omega)
  have hIn := contains_of_nearestOnGrid? hSome
  rw [← Nat.mul_assoc, contains_iff_holds hStretch] at hIn
  rw [ten_zpow_eq_div, ← mul_div_assoc]
  exact_mod_cast hIn

/-
  A grid with steps no wider than the lower half of the
  interval has a point in it.
-/
theorem nearestOnGrid?_ne_none
    (hHigh : interval.value < interval.high)
    (hStep :
      10 ^ exponent * unitsInOne <
        (interval.value - interval.low : ℚ)) :
    interval.nearestOnGrid? exponent ≠ none := by
  have hStretch :
      0 < Nat.pow 10 (-exponent).toNat :=
    Nat.pow_pos (by omega)
  have hStep :
      interval.low * Nat.pow 10 (-exponent).toNat +
          Nat.pow 10 exponent.toNat * unitsInOne <
        interval.value * Nat.pow 10 (-exponent).toNat := by
    rw [ten_zpow_eq_div, div_mul_eq_mul_div,
      div_lt_iff₀ (by exact_mod_cast hStretch), sub_mul,
      lt_sub_iff_add_lt'] at hStep
    exact_mod_cast hStep
  have hHigh :
      interval.value * Nat.pow 10 (-exponent).toNat <
        interval.high * Nat.pow 10 (-exponent).toNat :=
    Nat.mul_lt_mul_of_pos_right hHigh hStretch
  have hPos : 0 < Nat.pow 10 exponent.toNat * unitsInOne :=
    Nat.mul_pos (Nat.pow_pos (by omega)) unitsInOne_pos
  have hBelow :=
    Nat.div_mul_le_self
      (interval.value * Nat.pow 10 (-exponent).toNat)
      (Nat.pow 10 exponent.toNat * unitsInOne)
  have hAbove :=
    Nat.lt_div_mul_add
      (a := interval.value * Nat.pow 10 (-exponent).toNat)
      hPos
  apply nearestOnGrid?_ne_none_of_contains
  unfold contains
  simp only [Bool.or_eq_true, Bool.and_eq_true,
    decide_eq_true_eq]
  left
  omega

/-
  The search gives a magnitude inside, if one of its grids
  has a point.
-/
theorem holds_search
    {fuel steps : Nat}
    (hLess : steps < fuel)
    (hSome :
      interval.nearestOnGrid? (exponent - steps) ≠ none) :
    interval.Holds
      (Decimal.search interval.nearestOnGrid? fuel
        exponent).magnitude := by
  rcases Decimal.exists_magnitude_search hLess hSome with
    ⟨place, digits, hPoint, hMagnitude⟩
  rw [hMagnitude]
  exact holds_of_nearestOnGrid? hPoint

end RoundingInterval

end Transclusion

------------------------------------------------------------
-- Leading Digits
------------------------------------------------------------

namespace Transclusion

/- Digits write a number no smaller than their length says. -/
theorem ten_pow_le_of_toDigits
    {n : Nat}
    (hPos : 0 < n) :
    10 ^ ((Nat.toDigits 10 n).length - 1) ≤ n := by
  rcases Nat.eq_zero_or_pos
      ((Nat.toDigits 10 n).length - 1) with hZero | hMore
  · rw [hZero]
    omega
  · by_contra hLess
    have hShort :=
      (Nat.length_toDigits_le_iff (by omega) hMore).mpr
        (Nat.lt_of_not_le hLess)
    omega

/- Digits write a number smaller than their length says. -/
theorem lt_ten_pow_of_toDigits
    (n : Nat) :
    n < 10 ^ (Nat.toDigits 10 n).length :=
  (Nat.length_toDigits_le_iff (by omega)
    Nat.length_toDigits_pos).mp (Nat.le_refl _)

namespace RoundingInterval

variable {interval : RoundingInterval}

/- Ten to the leading exponent is not above the number. -/
theorem ten_zpow_leadingExponent_le
    (hPos : 0 < interval.value) :
    10 ^ interval.leadingExponent * unitsInOne ≤
      (interval.value : ℚ) := by
  have hLarge : unitsInOne ≤ Nat.pow 10 400 := by
    decide +kernel
  have hUnits := unitsInOne_pos
  unfold leadingExponent
  simp only
  unfold unitsInOne at hLarge hUnits ⊢
  generalize hPlaces : 400 = places at hLarge ⊢
  generalize Nat.pow 2 1076 = units at hLarge hUnits ⊢
  have hScaled :
      0 < interval.value * Nat.pow 10 places / units := by
    apply Nat.div_pos _ hUnits
    exact Nat.le_trans hLarge (Nat.le_mul_of_pos_left _ hPos)
  have hLeading := ten_pow_le_of_toDigits hScaled
  have hSome : 0 < (Nat.toDigits 10 _).length :=
    Nat.length_toDigits_pos
      (n := interval.value * Nat.pow 10 places / units)
  rw [Nat.le_div_iff_mul_le hUnits] at hLeading
  generalize (Nat.toDigits 10 _).length = count
    at hLeading hSome ⊢
  have hPower :
      (10 : ℚ) ^ ((count : Int) - 401) * 10 ^ places =
        (10 : ℚ) ^ (count - 1) := by
    rw [← zpow_natCast, ← zpow_add₀ (by norm_num),
      ← zpow_natCast]
    congr 1
    omega
  have hTen : (0 : ℚ) < 10 ^ places := by
    positivity
  rw [← mul_le_mul_iff_left₀ hTen, mul_right_comm, hPower]
  exact_mod_cast hLeading

end RoundingInterval

end Transclusion

------------------------------------------------------------
-- Shortest Digits
------------------------------------------------------------

namespace Transclusion

namespace Double

open RoundingInterval

variable {d : Double}

/-
  The interval of a number reaches below it by more than the
  seventeenth decimal place.
-/
theorem value_lt_mul_sub_low
    (hSome : d.significand ≠ 0) :
    (ofDouble d).value <
      10 ^ 17 * ((ofDouble d).value - (ofDouble d).low) := by
  have hLess := d.significand_lt
  have hUnit : 0 < Nat.pow 2 d.power :=
    Nat.pow_pos (by omega)
  have hWide :
      Nat.pow 2 d.power ≤
        d.significand * Nat.pow 2 d.power :=
    Nat.le_mul_of_pos_left _ (by omega)
  have hNarrow :
      d.significand * Nat.pow 2 d.power <
        9007199254740992 * Nat.pow 2 d.power :=
    Nat.mul_lt_mul_of_pos_right hLess hUnit
  unfold ofDouble
  simp only [Nat.mul_assoc]
  split <;> omega

/- The interval of a number reaches above it. -/
theorem value_lt_high :
    (ofDouble d).value < (ofDouble d).high := by
  have hUnit : 0 < Nat.pow 2 d.power :=
    Nat.pow_pos (by omega)
  unfold ofDouble
  simp only
  omega

/- The ends of the interval of a number are in order. -/
theorem low_le_high :
    (ofDouble d).low ≤ (ofDouble d).high :=
  Nat.le_trans (Nat.sub_le _ _) value_lt_high.le

/- The shortest digits lie in the interval of the number. -/
theorem holds_shortest
    (hSome : d.significand ≠ 0) :
    (ofDouble d).Holds d.shortest.magnitude := by
  unfold shortest
  rw [if_neg hSome]
  apply holds_search (show 17 < 18 by omega)
  apply nearestOnGrid?_ne_none value_lt_high
  have hReach := value_lt_mul_sub_low hSome
  have hValue : 0 < (ofDouble d).value := by omega
  have hLeading := ten_zpow_leadingExponent_le hValue
  generalize (ofDouble d).leadingExponent = exponent
    at hLeading ⊢
  have hReach :
      ((ofDouble d).value : ℚ) <
        10 ^ 17 * ((ofDouble d).value - (ofDouble d).low) := by
    rw [← Nat.cast_sub (by omega)]
    exact_mod_cast hReach
  have hPower :
      (10 : ℚ) ^ (exponent - (17 : ℕ)) =
        10 ^ exponent / 10 ^ 17 := by
    rw [zpow_sub₀ (by norm_num), zpow_natCast]
  rw [hPower, div_mul_eq_mul_div,
    div_lt_iff₀ (by norm_num), mul_comm (_ - _)]
  exact lt_of_le_of_lt hLeading hReach

/- A magnitude in the interval is at least one unit. -/
theorem one_le_of_holds
    {x : ℚ}
    (hSome : d.significand ≠ 0)
    (hIn : (ofDouble d).Holds x) :
    1 ≤ x * unitsInOne := by
  have hUnit : 0 < Nat.pow 2 d.power :=
    Nat.pow_pos (by omega)
  have hWide :
      Nat.pow 2 d.power ≤
        d.significand * Nat.pow 2 d.power :=
    Nat.le_mul_of_pos_left _ (by omega)
  have hLow : 1 ≤ (ofDouble d).low := by
    unfold ofDouble
    simp only [Nat.mul_assoc]
    split <;> omega
  have hLow : (1 : ℚ) ≤ (ofDouble d).low := by
    exact_mod_cast hLow
  exact hLow.trans (hIn.bounds low_le_high).1

/- A magnitude in the interval is not too large. -/
theorem lt_of_holds
    {x : ℚ}
    {bound : Nat}
    (hBound : 4 * 9007199254740992 * Nat.pow 2 2045 < bound)
    (hIn : (ofDouble d).Holds x) :
    x * unitsInOne < bound := by
  have hPower : Nat.pow 2 d.power ≤ Nat.pow 2 2045 := by
    have hPower := d.power_le
    generalize 2045 = most at hPower ⊢
    exact Nat.pow_le_pow_right (by omega) hPower
  have hNext :=
    Nat.mul_le_mul_right (Nat.pow 2 d.power)
      (Nat.succ_le_of_lt d.significand_lt)
  rw [Nat.succ_mul] at hNext
  have hHigh : (ofDouble d).high < bound := by
    unfold ofDouble
    simp only [Nat.mul_assoc] at hBound ⊢
    generalize Nat.pow 2 2045 = most at hBound hPower
    omega
  have hHigh : ((ofDouble d).high : ℚ) < bound := by
    exact_mod_cast hHigh
  exact (hIn.bounds low_le_high).2.trans_lt hHigh

/- A decimal in the interval has a digit. -/
theorem digits_pos_of_holds
    {digits : Nat}
    {exponent : Int}
    (hSome : d.significand ≠ 0)
    (hIn : (ofDouble d).Holds (digits * 10 ^ exponent)) :
    0 < digits := by
  have hOne := one_le_of_holds hSome hIn
  rcases Nat.eq_zero_or_pos digits with rfl | hPos
  · rw [Nat.cast_zero, zero_mul, zero_mul] at hOne
    norm_num at hOne
  · exact hPos

/- A decimal in the interval is not too small. -/
theorem neg_lt_size_of_holds
    {digits bottom : Nat}
    {exponent : Int}
    (hBottom : unitsInOne ≤ 10 ^ bottom)
    (hSome : d.significand ≠ 0)
    (hIn : (ofDouble d).Holds (digits * 10 ^ exponent)) :
    -(bottom : Int) <
      (Nat.toDigits 10 digits).length + exponent := by
  have hOne := one_le_of_holds hSome hIn
  have hDigits :
      (digits : ℚ) < 10 ^ (Nat.toDigits 10 digits).length := by
    exact_mod_cast lt_ten_pow_of_toDigits digits
  have hBottom : (unitsInOne : ℚ) ≤ 10 ^ bottom := by
    exact_mod_cast hBottom
  have hUnits : (0 : ℚ) < unitsInOne := by
    exact_mod_cast unitsInOne_pos
  generalize (Nat.toDigits 10 digits).length = count
    at hDigits ⊢
  have hTen : (0 : ℚ) < 10 ^ exponent := by
    positivity
  have hPower :
      (1 : ℚ) < 10 ^ ((count : Int) + exponent + bottom) := by
    rw [zpow_add₀ (by norm_num), zpow_add₀ (by norm_num),
      zpow_natCast, zpow_natCast]
    calc
      (1 : ℚ) ≤ digits * 10 ^ exponent * unitsInOne := hOne
      _ < 10 ^ count * 10 ^ exponent * unitsInOne := by
        gcongr
      _ ≤ 10 ^ count * 10 ^ exponent * 10 ^ bottom := by
        gcongr
  have := (one_lt_zpow_iff_right₀ (by norm_num)).mp hPower
  omega

/- A decimal in the interval is not too large. -/
theorem size_le_of_holds
    {digits top : Nat}
    {exponent : Int}
    (hTop :
      4 * 9007199254740992 * Nat.pow 2 2045 <
        10 ^ top * unitsInOne)
    (hSome : d.significand ≠ 0)
    (hIn : (ofDouble d).Holds (digits * 10 ^ exponent)) :
    (Nat.toDigits 10 digits).length + exponent ≤ top := by
  have hLess := lt_of_holds hTop hIn
  have hDigits :
      10 ^ ((Nat.toDigits 10 digits).length - 1) ≤
        (digits : ℚ) := by
    exact_mod_cast
      ten_pow_le_of_toDigits (digits_pos_of_holds hSome hIn)
  have hCount : 0 < (Nat.toDigits 10 digits).length :=
    Nat.length_toDigits_pos
  have hUnits : (0 : ℚ) < unitsInOne := by
    exact_mod_cast unitsInOne_pos
  generalize (Nat.toDigits 10 digits).length = count
    at hDigits hCount ⊢
  push_cast at hLess
  have hLess := lt_of_mul_lt_mul_right hLess hUnits.le
  have hTen : (0 : ℚ) < 10 ^ exponent := by
    positivity
  have hPower :
      (10 : ℚ) ^ ((count - 1 : Nat) + exponent) <
        10 ^ (top : Int) := by
    rw [zpow_add₀ (by norm_num), zpow_natCast, zpow_natCast]
    refine lt_of_le_of_lt ?_ hLess
    gcongr
  have := (zpow_lt_zpow_iff_right₀ (by norm_num)).mp hPower
  omega

/-
  Any digits with the magnitude of the shortest ones read
  back as the number.
-/
theorem ofDecimal?_of_magnitude_eq
    {digits : Nat}
    {exponent : Int}
    (hMagnitude :
      digits * 10 ^ exponent = d.shortest.magnitude) :
    ofDecimal? d.negative digits exponent = some d := by
  by_cases hSome : d.significand = 0
  · have hDigits : digits = 0 := by
      unfold shortest at hMagnitude
      rw [if_pos hSome] at hMagnitude
      unfold Decimal.magnitude at hMagnitude
      rw [Nat.cast_zero, zero_mul] at hMagnitude
      have hTen : (10 : ℚ) ^ exponent ≠ 0 :=
        zpow_ne_zero _ (by norm_num)
      exact_mod_cast
        (mul_eq_zero.mp hMagnitude).resolve_right hTen
    rw [ofDecimal?, if_pos (Or.inl hDigits),
      eq_zero_of_significand d hSome]
    rfl
  · have hIn := holds_shortest hSome
    rw [← hMagnitude] at hIn
    have hDigits := digits_pos_of_holds hSome hIn
    have hSmall :=
      neg_lt_size_of_holds
        (show unitsInOne ≤ 10 ^ 330 by decide +kernel) hSome
        hIn
    have hLarge :=
      size_le_of_holds
        (show _ < 10 ^ 310 * unitsInOne by decide +kernel)
        hSome hIn
    have hStretch : 0 < Nat.pow 10 (-exponent).toNat :=
      Nat.pow_pos (by omega)
    have hIn :
        (ofDouble d).contains (Nat.pow 10 (-exponent).toNat)
          (digits * Nat.pow 10 exponent.toNat * unitsInOne) =
          true := by
      rw [contains_iff_holds hStretch]
      rw [ten_zpow_eq_div, ← mul_div_assoc] at hIn
      exact_mod_cast hIn
    have hRead := ofRatio?_of_contains hSome hStretch hIn
    unfold ofDecimal?
    rw [if_neg (by omega), if_neg (by omega)]
    by_cases hSign : 0 ≤ exponent
    · rw [if_pos hSign]
      rw [show (-exponent).toNat = 0 by omega] at hRead
      exact hRead
    · rw [if_neg hSign]
      rw [show exponent.toNat = 0 by omega] at hRead
      rw [Nat.pow_eq, pow_zero, mul_one] at hRead
      exact hRead

end Double

end Transclusion
