import Transclusion.Number.Shortest

/-
  The numbers of documents: integers of 64 bits, signed or
  not, and finite binary64 numbers.

  Key definitions include:
    * `Transclusion.Integer`
    * `Transclusion.Number`
    * `Transclusion.Number.same`
    * `Transclusion.Number.text`

  An integer and a binary64 number are never the same
  number, whatever their values.
-/

------------------------------------------------------------
-- Integers
------------------------------------------------------------

namespace Transclusion

/-
  An integer that fits into 64 bits, with or without a sign:
  from `-2 ^ 63` to below `2 ^ 64`.
-/
structure Integer where
  value : Int
  lower : -9223372036854775808 ≤ value := by decide
  upper : value < 18446744073709551616 := by decide
  deriving DecidableEq

namespace Integer

/- The integer of a value in range. -/
def ofInt?
    (value : Int) : Option Integer :=
  if h : -9223372036854775808 ≤ value ∧
      value < 18446744073709551616 then
    some ⟨value, h.1, h.2⟩
  else
    none

/- A value in range becomes the integer of that value. -/
theorem ofInt?_eq_some_iff
    (value : Int)
    (n : Integer) :
    ofInt? value = some n ↔ n.value = value := by
  cases n with
  | mk v lower upper =>
      unfold ofInt?
      split
      · simp [eq_comm]
      · rename_i h
        simp only [reduceCtorEq, false_iff]
        intro hv
        subst hv
        exact h ⟨lower, upper⟩

end Integer

/- The decimal digits of an integer, with its sign. -/
def integerChars
    (value : Int) : List Char :=
  if value < 0 then
    '-' :: Nat.toDigits 10 value.natAbs
  else
    Nat.toDigits 10 value.natAbs

/- The decimal text of an integer. -/
def integerText
    (value : Int) : String :=
  String.ofList (integerChars value)

end Transclusion

------------------------------------------------------------
-- Numbers
------------------------------------------------------------

namespace Transclusion

/- A number of a document. -/
inductive Number where
  | integer (n : Integer)
  | double (d : Double)
  deriving DecidableEq

namespace Number

/-
  Sameness of numbers: within one kind, by value.
-/
def same : Number → Number → Bool
  | .integer a, .integer b => decide (a = b)
  | .double a, .double b => a.numEq b
  | _, _ => false

/- The text of a number in a layout. -/
def text
    (layout : Layout) : Number → String
  | .integer n => integerText n.value
  | .double d => d.text layout

/- Every number is the same as itself. -/
theorem same_refl
    (a : Number) : a.same a = true := by
  cases a with
  | integer n => simp [same]
  | double d => simp [same, Double.numEq_refl]

/- Sameness of numbers has no direction. -/
theorem same_symm
    {a b : Number}
    (h : a.same b = true) : b.same a = true := by
  cases a with
  | integer n =>
      cases b with
      | integer m =>
          simp only [same, decide_eq_true_eq] at h ⊢
          exact h.symm
      | double d => simp [same] at h
  | double c =>
      cases b with
      | integer m => simp [same] at h
      | double d => exact Double.numEq_symm h

/- Numbers the same as one number are the same. -/
theorem same_trans
    {a b c : Number}
    (h : a.same b = true)
    (k : b.same c = true) : a.same c = true := by
  cases a with
  | integer n =>
      cases b with
      | integer m =>
          cases c with
          | integer l =>
              simp only [same, decide_eq_true_eq] at h k ⊢
              exact h.trans k
          | double d => simp [same] at k
      | double d => simp [same] at h
  | double x =>
      cases b with
      | integer m => simp [same] at h
      | double y =>
          cases c with
          | integer l => simp [same] at k
          | double z => exact Double.numEq_trans h k

end Number

end Transclusion
