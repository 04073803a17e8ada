import Mathlib.Logic.ExistsUnique
import Transclusion.Proofs.Value.Parsed
import Transclusion.Proofs.Yaml.Tree

/-
  Structured values among the trees.

  Key definitions include:
    * `Transclusion.Yaml.HeldNumber`
    * `Transclusion.Yaml.HeldNumber.toValue`

  Key theorems include:
    * `Transclusion.Yaml.HeldNumber.toValue_eq`
    * `Transclusion.Yaml.HeldNumber.existsUnique`
    * `Transclusion.Yaml.Node.toValue_projects`

  The trees of structured values keep all that there is to a
  value, so what a tree becomes is left alone when it is
  made a tree again.  Numbers are held in machine words, and
  which words hold an integer does not show in the value.
-/

------------------------------------------------------------
-- Numbers in Words
------------------------------------------------------------

namespace Transclusion

namespace Integer

/- The integer in a word without a sign. -/
def ofUnsigned
    (n : UInt64) : Integer where
  value := n.toNat
  lower := by omega
  upper := by
    have hUpper := n.toNat_lt
    omega

/- The integer in a word with a sign. -/
def ofSigned
    (n : Int64) : Integer where
  value := n.toInt
  lower := by
    have hLower := n.le_toInt
    omega
  upper := by
    have hUpper := n.toInt_lt
    omega

/- Integers with the same value are the same. -/
theorem eq_of_value_eq
    {n m : Integer}
    (hValue : n.value = m.value) :
    n = m := by
  cases n
  cases m
  cases hValue
  rfl

end Integer

namespace Yaml

/-
  A number as it is held.  Integers below zero are in words
  with a sign, and all others in words without one.
-/
inductive HeldNumber where
  | unsigned (n : UInt64)
  | signed (n : Int64) (hBelow : n.toInt < 0)
  | double (d : ExtendedDouble)

namespace HeldNumber

/- The number that is held. -/
def number : HeldNumber → YamlNumber
  | unsigned n => .integer (.ofUnsigned n)
  | signed n _ => .integer (.ofSigned n)
  | double d => .double d

/- The word with a sign for an integer that fits into one. -/
def signed? : HeldNumber → Option Int64
  | unsigned n =>
      if n.toNat ≤ Int64.maxValue.toNatClampNeg then
        some (.ofInt n.toNat)
      else none
  | signed n _ => some n
  | double _ => none

/- The word without a sign for an integer that has none. -/
def unsigned? : HeldNumber → Option UInt64
  | unsigned n => some n
  | signed _ _ => none
  | double _ => none

/- The binary64 number, with a way to round integers. -/
def asDouble
    (round : Integer → ExtendedDouble) :
    HeldNumber → ExtendedDouble
  | unsigned n => round (.ofUnsigned n)
  | signed n _ => round (.ofSigned n)
  | double d => d

/-
  The structured value of a number: the first of the words
  that can hold it, or a binary64 number if it is finite.
-/
def toValue
    (round : Integer → ExtendedDouble)
    (held : HeldNumber) : Value :=
  match held.signed? with
  | some n => .number (.integer (.ofSigned n))
  | none =>
      match held.unsigned? with
      | some n => .number (.integer (.ofUnsigned n))
      | none =>
          match held.asDouble round with
          | .finite d => .number (.double d)
          | _ => .null

/- A small word without a sign is one with a sign. -/
theorem ofSigned_ofInt
    {n : UInt64}
    (hSmall : n.toNat ≤ Int64.maxValue.toNatClampNeg) :
    Integer.ofSigned (.ofInt n.toNat) = .ofUnsigned n := by
  have hUpper : n.toNat ≤ 9223372036854775807 := hSmall
  apply Integer.eq_of_value_eq
  exact
    Int64.toInt_ofInt_of_le (by omega) (by omega)

/-
  The value of a number does not depend on the words, and no
  integer is rounded.
-/
theorem toValue_eq
    (round : Integer → ExtendedDouble)
    (held : HeldNumber) :
    held.toValue round =
      held.number.toNumber?.elim .null .number := by
  cases held with
  | unsigned n =>
      by_cases hSmall :
          n.toNat ≤ Int64.maxValue.toNatClampNeg
      · simp [toValue, signed?, if_pos hSmall, number,
          YamlNumber.toNumber?, ofSigned_ofInt hSmall]
      · simp [toValue, signed?, if_neg hSmall, unsigned?,
          number, YamlNumber.toNumber?]
  | signed n hBelow => rfl
  | double d =>
      cases d with
      | finite d => rfl
      | infinity negative => rfl
      | notANumber => rfl

/- Every number is held in exactly one way. -/
theorem existsUnique
    (n : YamlNumber) :
    ∃! held : HeldNumber, held.number = n := by
  cases n with
  | double d =>
      refine ⟨.double d, rfl, ?_⟩
      intro held hHeld
      cases held with
      | double e =>
          rw [number, YamlNumber.double.injEq] at hHeld
          rw [hHeld]
      | unsigned m => cases hHeld
      | signed m hBelow => cases hHeld
  | integer n =>
      have hLower := n.lower
      have hUpper := n.upper
      by_cases hBelow : n.value < 0
      · have hValue :
            (Int64.ofInt n.value).toInt = n.value :=
          Int64.toInt_ofInt_of_le (by omega) (by omega)
        refine
          ⟨.signed (.ofInt n.value) (by omega), ?_, ?_⟩
        · exact
            congrArg YamlNumber.integer
              (Integer.eq_of_value_eq hValue)
        · intro held hHeld
          cases held with
          | double e => cases hHeld
          | unsigned m =>
              rw [number, YamlNumber.integer.injEq] at hHeld
              rw [← hHeld] at hBelow
              exact absurd hBelow (Int.not_lt.mpr (by
                exact Int.natCast_nonneg _))
          | signed m hNegative =>
              rw [number, YamlNumber.integer.injEq] at hHeld
              subst hHeld
              congr 1
              exact (Int64.ofInt_toInt m).symm
      · have hNat : n.value.toNat < UInt64.size := by
          change n.value.toNat < 18446744073709551616
          omega
        have hValue :
            (UInt64.ofNat n.value.toNat).toNat =
              n.value.toNat :=
          UInt64.toNat_ofNat_of_lt hNat
        refine ⟨.unsigned (.ofNat n.value.toNat), ?_, ?_⟩
        · apply congrArg YamlNumber.integer
          apply Integer.eq_of_value_eq
          change
            ((UInt64.ofNat n.value.toNat).toNat : Int) =
              n.value
          omega
        · intro held hHeld
          cases held with
          | double e => cases hHeld
          | unsigned m =>
              rw [number, YamlNumber.integer.injEq] at hHeld
              subst hHeld
              congr 1
              exact UInt64.ofNat_toNat.symm
          | signed m hNegative =>
              rw [number, YamlNumber.integer.injEq] at hHeld
              rw [← hHeld] at hBelow
              exact absurd hNegative hBelow

end HeldNumber

end Yaml

end Transclusion

------------------------------------------------------------
-- Values as Trees
------------------------------------------------------------

namespace Transclusion

namespace Yaml

namespace Node

/-
  Making a tree a value is a projection.  The tree of a
  value with distinct keys becomes that value; these are all
  the values that trees become, so a tree that becomes a
  value becomes it again by way of it.  Every number of a
  value is held by words in one way, and has itself for its
  value.
-/
theorem toValue_projects :
    (∀ value : Value,
        value.hasDistinctKeys = true →
          (ofValue value).toValue = .ok value) ∧
      (∀ (node : Node) (value : Value),
        node.toValue = .ok value →
          (ofValue value).toValue = .ok value) ∧
        (∀ value : Value,
          (∃ node : Node, node.toValue = .ok value) ↔
            value.hasDistinctKeys = true) ∧
          (∀ (round : Integer → ExtendedDouble)
              (held : HeldNumber),
            (Node.number held.number).toValue =
              .ok (held.toValue round)) ∧
            ∀ (round : Integer → ExtendedDouble)
                (n : Number),
              ∃! held : HeldNumber,
                ofValue (.number n) =
                    .number held.number ∧
                  held.toValue round = .number n := by
  refine
    ⟨toValue_ofValue, ?_, ?_, ?_, ?_⟩
  · intro node value hOk
    exact
      toValue_ofValue value
        (hasDistinctKeys_of_toValue node hOk)
  · intro value
    constructor
    · rintro ⟨node, hOk⟩
      exact hasDistinctKeys_of_toValue node hOk
    · intro hKeys
      exact ⟨ofValue value, toValue_ofValue value hKeys⟩
  · intro round held
    rw [held.toValue_eq, toValue]
  · intro round n
    rcases HeldNumber.existsUnique (.ofNumber n) with
      ⟨held, hHeld, hOnly⟩
    have hSame : held.toValue round = .number n := by
      rw [held.toValue_eq, hHeld]
      cases n with
      | integer n => rfl
      | double d => rfl
    refine ⟨held, ⟨?_, hSame⟩, ?_⟩
    · rw [ofValue, hHeld]
    · rintro other ⟨hOther, _hValue⟩
      rw [ofValue, Node.number.injEq] at hOther
      exact hOnly other hOther.symm

/- A value with integers at the ends of their ranges. -/
def limits : Value :=
  .object
    [("low",
        .number
          (.integer { value := -9223372036854775808 })),
      ("", .array
        [.number (.integer { value := 9223372036854775807 }),
          .number
            (.integer { value := 9223372036854775808 }),
          .number
            (.integer { value := 18446744073709551615 })]),
      ("null", .object [("true", .null)])]

/- A tree that becomes this value, with tags and keys. -/
def limitsTree : Node :=
  .mapping
    [(.string "low",
        .number
          (.integer { value := -9223372036854775808 })),
      (.tagged "!x" (.string ""),
        .sequence
          [.number
              (.integer { value := 9223372036854775807 }),
            .number
              (.integer { value := 9223372036854775808 }),
            .number
              (.integer { value := 18446744073709551615 })]),
      (.null,
        .mapping
          [(.bool true,
              .number (.double (.infinity true)))])]

/- Integers are kept from end to end of their ranges. -/
theorem toValue_projects_limits :
    limits.hasDistinctKeys = true ∧
      (ofValue limits).toValue = .ok limits ∧
        limitsTree.toValue = .ok limits ∧
          (ofValue limits).toValue = limitsTree.toValue := by
  have hKeys : limits.hasDistinctKeys = true := by
    decide +kernel
  have hTree : limitsTree.toValue = .ok limits := by
    rfl
  have hAgain : (ofValue limits).toValue = .ok limits :=
    toValue_projects.2.1 limitsTree limits hTree
  exact
    ⟨hKeys, toValue_projects.1 limits hKeys, hTree,
      hAgain.trans hTree.symm⟩

end Node

end Yaml

end Transclusion
