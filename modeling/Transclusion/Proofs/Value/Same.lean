import Mathlib.Data.List.Forall2
import Mathlib.Data.List.Perm.Subperm
import Transclusion.Proofs.Value.Fields

/-
  Sameness of values as an equivalence.

  Key theorems include:
    * `Transclusion.Value.same_object_iff`
    * `Transclusion.Value.mem_keys_of_same`
    * `Transclusion.Value.same_refl`
    * `Transclusion.Value.same_symm`
    * `Transclusion.Value.same_trans`

  Where no object has a key twice, objects with equally many
  fields have the same keys as soon as the keys of one are
  among those of the other.
-/

------------------------------------------------------------
-- Sameness of Collections
------------------------------------------------------------

namespace Transclusion

namespace Value

/- Two arrays are the same if their items are, in order. -/
theorem same_array_iff
    {as bs : List Value} :
    (Value.array as).same (.array bs) = true ↔
      List.Forall₂ (fun a b => a.same b = true) as bs := by
  change sameItems as bs = true ↔ _
  induction as generalizing bs with
  | nil => cases bs <;> simp [sameItems]
  | cons a as ih => cases bs <;> simp [sameItems, ih]

/-
  Two objects are the same if they have equally many fields
  and each value of the first has its like in the second.
-/
theorem same_object_iff
    {as bs : Fields} :
    (Value.object as).same (.object bs) = true ↔
      as.length = bs.length ∧
        ∀ key a, (key, a) ∈ as →
          ∃ b, Fields.get? bs key = some b ∧
            a.same b = true := by
  change (as.length == bs.length && sameFields as bs) = true ↔ _
  rw [Bool.and_eq_true, beq_iff_eq]
  refine and_congr_right fun _hLength => ?_
  clear _hLength
  induction as with
  | nil => simp [sameFields]
  | cons field rest ih =>
      obtain ⟨key, a⟩ := field
      cases hGet : Fields.get? bs key <;>
        simp [sameFields, hGet, ih, or_imp, forall_and]

end Value

end Transclusion

------------------------------------------------------------
-- Sameness as an Equivalence
------------------------------------------------------------

namespace Transclusion

namespace Value

/- Plain values are the same in both directions. -/
theorem same_symm_of_plain
    {a b : Value}
    (hPlain : a.kind = .plain)
    (hSame : a.same b = true) :
    b.same a = true := by
  cases a with
  | null =>
      cases b with
      | null => rfl
      | _ => cases hSame
  | bool p =>
      cases b with
      | bool q => exact BEq.symm hSame
      | _ => cases hSame
  | string s =>
      cases b with
      | string t => exact BEq.symm hSame
      | _ => cases hSame
  | number n =>
      cases b with
      | number m => exact Number.same_symm hSame
      | _ => cases hSame
  | array => cases hPlain
  | object => cases hPlain

/- Plain values are the same in chains. -/
theorem same_trans_of_plain
    {a b c : Value}
    (hPlain : a.kind = .plain)
    (hAB : a.same b = true)
    (hBC : b.same c = true) :
    a.same c = true := by
  cases a with
  | null =>
      cases b with
      | null => exact hBC
      | _ => cases hAB
  | bool p =>
      cases b with
      | bool q =>
          have hEq : p = q := beq_iff_eq.mp hAB
          rw [hEq]
          exact hBC
      | _ => cases hAB
  | string s =>
      cases b with
      | string t =>
          have hEq : s = t := beq_iff_eq.mp hAB
          rw [hEq]
          exact hBC
      | _ => cases hAB
  | number n =>
      cases b with
      | number m =>
          cases c with
          | number l => exact Number.same_trans hAB hBC
          | _ => cases hBC
      | _ => cases hAB
  | array => cases hPlain
  | object => cases hPlain

/- What is the same as a collection is one of its kind. -/
theorem kind_eq_of_same
    {a b : Value}
    (hSame : a.same b = true) :
    a.kind = b.kind := by
  cases a <;> cases b <;> first | rfl | cases hSame

/-
  Objects that are the same have the same keys: different
  keys that are equally many and among others are all of
  them.
-/
theorem mem_keys_of_same
    {as bs : Fields}
    {key : String}
    (hDistinct :
      (Value.object as).hasDistinctKeys = true)
    (hSame : (Value.object as).same (.object bs) = true)
    (hMem : key ∈ Fields.keys bs) :
    key ∈ Fields.keys as := by
  rcases hasDistinctKeys_object_iff.mp hDistinct with
    ⟨hNodup, _hValues⟩
  rcases same_object_iff.mp hSame with ⟨hLength, hFields⟩
  have hSubset : Fields.keys as ⊆ Fields.keys bs := by
    intro other hOther
    rcases Fields.exists_get?_iff.mpr hOther with
      ⟨a, hGet⟩
    rcases hFields other a
        (Fields.mem_of_get?_eq_some hGet) with
      ⟨b, hLike, _hSame⟩
    exact Fields.exists_get?_iff.mp ⟨b, hLike⟩
  have hPerm : (Fields.keys as).Perm (Fields.keys bs) := by
    refine
      (hNodup.subperm hSubset).perm_of_length_le ?_
    simp [Fields.keys, hLength]
  exact hPerm.mem_iff.mpr hMem

/- Without repeated keys, a value is the same as itself. -/
theorem same_refl
    {a : Value}
    (hDistinct : a.hasDistinctKeys = true) :
    a.same a = true := by
  induction a using Value.induction with
  | plain a hPlain =>
      cases a with
      | number n => exact Number.same_refl n
      | null => rfl
      | bool b => exact beq_self_eq_true b
      | string s => exact beq_self_eq_true s
      | array | object => cases hPlain
  | array as ih =>
      rw [hasDistinctKeys_array_iff] at hDistinct
      rw [same_array_iff, List.forall₂_same]
      intro item hItem
      exact ih item hItem (hDistinct item hItem)
  | object as ih =>
      rcases hasDistinctKeys_object_iff.mp hDistinct with
        ⟨hNodup, hValues⟩
      refine same_object_iff.mpr ⟨rfl, ?_⟩
      intro key a hField
      exact
        ⟨a, Fields.get?_eq_some_of_mem hNodup hField,
          ih _ hField (hValues _ hField)⟩

/- Without repeated keys, sameness has no direction. -/
theorem same_symm
    {a b : Value}
    (hA : a.hasDistinctKeys = true)
    (hB : b.hasDistinctKeys = true)
    (hSame : a.same b = true) :
    b.same a = true := by
  induction a using Value.induction generalizing b with
  | plain a hPlain => exact same_symm_of_plain hPlain hSame
  | array as ih =>
      rcases kind_eq_array_iff.mp
          (kind_eq_of_same hSame).symm with
        ⟨bs, rfl⟩
      rw [hasDistinctKeys_array_iff] at hA hB
      rw [same_array_iff] at hSame ⊢
      induction hSame with
      | nil => exact .nil
      | cons hFirst _hRest ihRest =>
          simp only [List.forall_mem_cons] at hA hB ih
          exact
            .cons (ih.1 hA.1 hB.1 hFirst)
              (ihRest ih.2 hA.2 hB.2)
  | object as ih =>
      rcases kind_eq_object_iff.mp
          (kind_eq_of_same hSame).symm with
        ⟨bs, rfl⟩
      rcases hasDistinctKeys_object_iff.mp hA with
        ⟨_hNodup, hValues⟩
      rcases hasDistinctKeys_object_iff.mp hB with
        ⟨hNodup', hValues'⟩
      rcases same_object_iff.mp hSame with
        ⟨hLength, hFields⟩
      refine same_object_iff.mpr ⟨hLength.symm, ?_⟩
      intro key b hField
      have hKey : key ∈ Fields.keys as :=
        mem_keys_of_same hA hSame
          (List.mem_map.mpr ⟨_, hField, rfl⟩)
      rcases Fields.exists_get?_iff.mpr hKey with ⟨a, hGet⟩
      have hMem := Fields.mem_of_get?_eq_some hGet
      rcases hFields key a hMem with ⟨b', hGet', hLike⟩
      rw [Fields.get?_eq_some_of_mem hNodup' hField,
        Option.some.injEq] at hGet'
      subst hGet'
      exact
        ⟨a, hGet,
          ih _ hMem (hValues _ hMem) (hValues' _ hField)
            hLike⟩

/- Values the same as one value are the same. -/
theorem same_trans
    {a b c : Value}
    (hAB : a.same b = true)
    (hBC : b.same c = true) :
    a.same c = true := by
  induction a using Value.induction generalizing b c with
  | plain a hPlain =>
      exact same_trans_of_plain hPlain hAB hBC
  | array as ih =>
      rcases kind_eq_array_iff.mp
          (kind_eq_of_same hAB).symm with
        ⟨bs, rfl⟩
      rcases kind_eq_array_iff.mp
          (kind_eq_of_same hBC).symm with
        ⟨cs, rfl⟩
      rw [same_array_iff] at hAB hBC ⊢
      induction hAB generalizing cs with
      | nil => cases hBC; exact .nil
      | cons hFirst _hRest ihRest =>
          cases hBC with
          | cons hNext hOthers =>
              simp only [List.forall_mem_cons] at ih
              exact
                .cons (ih.1 hFirst hNext)
                  (ihRest ih.2 _ hOthers)
  | object as ih =>
      rcases kind_eq_object_iff.mp
          (kind_eq_of_same hAB).symm with
        ⟨bs, rfl⟩
      rcases kind_eq_object_iff.mp
          (kind_eq_of_same hBC).symm with
        ⟨cs, rfl⟩
      rcases same_object_iff.mp hAB with
        ⟨hLength, hFields⟩
      rcases same_object_iff.mp hBC with
        ⟨hLength', hFields'⟩
      refine
        same_object_iff.mpr ⟨hLength.trans hLength', ?_⟩
      intro key a hField
      rcases hFields key a hField with ⟨b, hGet, hLike⟩
      rcases hFields' key b
          (Fields.mem_of_get?_eq_some hGet) with
        ⟨c, hGet', hLike'⟩
      exact ⟨c, hGet', ih _ hField hLike hLike'⟩

end Value

end Transclusion
