import Transclusion.Proofs.Merge.Fields
import Transclusion.Proofs.Value.Rekey

/-
  Merges of values with other names for their keys.

  Key definitions include:
    * `Transclusion.MergeConflict.rekey`
    * `Transclusion.carry`

  Key theorems include:
    * `Transclusion.mergeEntry_rekey_and_mergeShared_rekey`
    * `Transclusion.merge_rekeyBelow`

  A merge looks at keys only to find the same one on the
  other side, so that no key means anything to it: what two
  values merge to, or where they are in conflict, is the
  same under any other names.
-/

------------------------------------------------------------
-- Results
------------------------------------------------------------

namespace Transclusion

/-
  A conflict with new names for the first key on its path
  and for those that follow.
-/
def MergeConflict.rekey
    (inner outer : String → String)
    (clash : MergeConflict) : MergeConflict :=
  match clash.path with
  | [] => ⟨[]⟩
  | key :: rest => ⟨outer key :: rest.map inner⟩

/- A result with its value and its conflict carried over. -/
def carry
    {α β : Type}
    (f : α → β)
    (g : MergeConflict → MergeConflict) :
    Except MergeConflict α → Except MergeConflict β
  | .ok a => .ok (f a)
  | .error clash => .error (g clash)

variable {inner outer : String → String}

/- A conflict under a key is one under its new name. -/
theorem rekey_under
    (key : String)
    (clash : MergeConflict) :
    (clash.under key).rekey inner outer =
      (clash.rekey inner inner).under (outer key) := by
  rcases clash with ⟨path⟩
  cases path <;> rfl

/- Values settled as wholes may be carried over before. -/
theorem settle_carry
    {policy : KeyPolicy}
    {f : Value → Value}
    {first second : Value}
    (hSame :
      (f first).same (f second) = first.same second) :
    settle policy (f first) (f second) =
      carry f (MergeConflict.rekey inner outer)
        (settle policy first second) := by
  cases policy with
  | first => rfl
  | second => rfl
  | error =>
      unfold settle
      rw [hSame]
      by_cases hEqual : first.same second = true
      · rw [if_pos hEqual, if_pos hEqual]
        rfl
      · rw [if_neg hEqual, if_neg hEqual]
        rfl

end Transclusion

------------------------------------------------------------
-- Values under One Key
------------------------------------------------------------

namespace Transclusion

variable {options : MergeOptions}
variable {inner outer : String → String}

/- Arrays are combined with any names for their keys. -/
theorem mergeArrays_rekey
    (hInner : Function.Injective inner)
    (as bs : List Value) :
    mergeArrays options (Value.rekeyItems inner as)
        (Value.rekeyItems inner bs) =
      carry (Value.rekey inner)
        (MergeConflict.rekey inner inner)
        (mergeArrays options as bs) := by
  have hAppend (front back : List Value) :
      Value.rekeyItems inner front ++
          Value.rekeyItems inner back =
        Value.rekeyItems inner (front ++ back) := by
    simp only [Value.rekeyItems_eq, List.map_append]
  unfold mergeArrays
  cases options.arrayPolicy with
  | appendSecond =>
      dsimp only
      rw [hAppend]
      rfl
  | appendFirst =>
      dsimp only
      rw [hAppend]
      rfl
  | first => rfl
  | second => rfl
  | byKey =>
      dsimp only
      exact
        settle_carry
          (Value.same_rekey hInner (.array as) (.array bs))

/- New fields are the new ones under any names. -/
theorem newFields_rekeyFields
    (hOuter : Function.Injective outer)
    (first second : Fields) :
    newFields (Value.rekeyFields inner outer first)
        (Value.rekeyFields inner outer second) =
      Value.rekeyFields inner outer
        (newFields first second) := by
  unfold newFields
  rw [Value.rekeyFields_eq second, List.filter_map,
    Value.rekeyFields_eq (second.filter _)]
  congr 1
  apply List.filter_congr
  intro field _hField
  have hHas :
      Fields.hasKey (Value.rekeyFields inner outer first)
          (outer field.1) =
        Fields.hasKey first field.1 :=
    Value.hasKey_rekeyFields hOuter first field.1
  simp only [Function.comp_apply, hHas]

/-
  Values under one key merge with any names for their keys,
  and so do the fields that two objects share.
-/
theorem mergeEntry_rekey_and_mergeShared_rekey
    (hInner : Function.Injective inner) :
    (∀ first second,
        mergeEntry options (first.rekey inner)
            (second.rekey inner) =
          carry (Value.rekey inner)
            (MergeConflict.rekey inner inner)
            (mergeEntry options first second)) ∧
      ∀ first second, ∀ outer : String → String,
        Function.Injective outer →
          mergeShared options
              (Value.rekeyFields inner outer first)
              (Value.rekeyFields inner outer second) =
            carry (Value.rekeyFields inner outer)
              (MergeConflict.rekey inner outer)
              (mergeShared options first second) := by
  refine
    mergeEntry.mutual_induct options
      (fun first second =>
        mergeEntry options (first.rekey inner)
            (second.rekey inner) =
          carry (Value.rekey inner)
            (MergeConflict.rekey inner inner)
            (mergeEntry options first second))
      (fun first second => ∀ outer : String → String,
        Function.Injective outer →
          mergeShared options
              (Value.rekeyFields inner outer first)
              (Value.rekeyFields inner outer second) =
            carry (Value.rekeyFields inner outer)
              (MergeConflict.rekey inner outer)
              (mergeShared options first second))
      ?objects ?wholes ?arrays ?others ?nil ?shared ?alone
  case objects =>
    intro first second hRecursive ih
    have hNew :
        newFields (Value.rekeyFields inner inner first)
            (Value.rekeyFields inner inner second) =
          Value.rekeyFields inner inner
            (newFields first second) :=
      newFields_rekeyFields hInner first second
    rw [Value.rekey, Value.rekey, mergeEntry, mergeEntry,
      if_pos hRecursive, if_pos hRecursive, ih inner hInner,
      hNew]
    cases mergeShared options first second with
    | error clash => rfl
    | ok shared =>
        have hAppend :
            Value.rekeyFields inner inner shared ++
                Value.rekeyFields inner inner
                  (newFields first second) =
              Value.rekeyFields inner inner
                (shared ++ newFields first second) := by
          simp only [Value.rekeyFields_eq, List.map_append]
        simp only [carry, bind, Except.bind, pure,
          Except.pure, Value.rekey, hAppend]
  case wholes =>
    intro first second hWhole
    have hSame :=
      Value.same_rekey hInner (.object first)
        (.object second)
    rw [Value.rekey, Value.rekey,
      mergeEntry_wholes hWhole, mergeEntry_wholes hWhole]
    exact settle_carry hSame
  case arrays =>
    intro first second
    rw [Value.rekey, Value.rekey, mergeEntry_arrays,
      mergeEntry_arrays]
    exact mergeArrays_rekey hInner first second
  case others =>
    intro first second hNoObjects hNoArrays
    have hObjects :
        ¬ (first.kind = .object ∧
          second.kind = .object) := by
      rintro ⟨hFirst, hSecond⟩
      rcases Value.kind_eq_object_iff.mp hFirst with
        ⟨as, rfl⟩
      rcases Value.kind_eq_object_iff.mp hSecond with
        ⟨bs, rfl⟩
      exact hNoObjects as bs rfl rfl
    have hArrays :
        ¬ (first.kind = .array ∧ second.kind = .array) := by
      rintro ⟨hFirst, hSecond⟩
      rcases Value.kind_eq_array_iff.mp hFirst with
        ⟨as, rfl⟩
      rcases Value.kind_eq_array_iff.mp hSecond with
        ⟨bs, rfl⟩
      exact hNoArrays as bs rfl rfl
    rw [mergeEntry_of_kind_ne hObjects hArrays,
      mergeEntry_of_kind_ne (by simpa using hObjects)
        (by simpa using hArrays)]
    exact settle_carry (Value.same_rekey hInner _ _)
  case nil =>
    intro second outer hOuter
    rfl
  case shared =>
    intro key value rest second incoming hIncoming hRest
      hValue outer hOuter
    rw [Value.rekeyFields, mergeShared, mergeShared,
      Value.get?_rekeyFields hOuter, hIncoming,
      hRest outer hOuter]
    simp only [Option.map_some, hValue]
    cases mergeEntry options value incoming with
    | error clash =>
        simp [carry, bind, Except.bind, Except.mapError,
          rekey_under]
    | ok merged =>
        cases mergeShared options rest second <;> rfl
  case alone =>
    intro key value rest second hAlone hRest outer hOuter
    rw [Value.rekeyFields, mergeShared, mergeShared,
      Value.get?_rekeyFields hOuter, hAlone,
      hRest outer hOuter]
    cases mergeShared options rest second <;> rfl

end Transclusion

------------------------------------------------------------
-- Documents
------------------------------------------------------------

namespace Transclusion

variable {options : MergeOptions}
variable {inner : String → String}

/- The fields of two objects merge with any names inside. -/
theorem mergeFields_rekeyFields
    (hInner : Function.Injective inner)
    (first second : Fields) :
    mergeFields options (Value.rekeyFields inner id first)
        (Value.rekeyFields inner id second) =
      carry (Value.rekeyFields inner id)
        (MergeConflict.rekey inner id)
        (mergeFields options first second) := by
  have hShared :
      mergeShared options (Value.rekeyFields inner id first)
          (Value.rekeyFields inner id second) =
        carry (Value.rekeyFields inner id)
          (MergeConflict.rekey inner id)
          (mergeShared options first second) :=
    (mergeEntry_rekey_and_mergeShared_rekey hInner).2 first
      second id Function.injective_id
  have hNew :
      newFields (Value.rekeyFields inner id first)
          (Value.rekeyFields inner id second) =
        Value.rekeyFields inner id
          (newFields first second) :=
    newFields_rekeyFields Function.injective_id first second
  unfold mergeFields
  rw [hShared, hNew]
  cases mergeShared options first second with
  | error clash => rfl
  | ok shared =>
      simp only [carry, bind, Except.bind, pure,
        Except.pure, Value.rekeyFields_eq, List.map_append]

/- Two values merge with any names below their roots. -/
theorem merge_rekeyBelow
    (hInner : Function.Injective inner)
    (first second : Value) :
    merge options (first.rekeyBelow inner)
        (second.rekeyBelow inner) =
      carry (Value.rekeyBelow inner)
        (MergeConflict.rekey inner id)
        (merge options first second) := by
  have hSettle :
      settle options.keyPolicy (first.rekeyBelow inner)
          (second.rekeyBelow inner) =
        carry (Value.rekeyBelow inner)
          (MergeConflict.rekey inner id)
          (settle options.keyPolicy first second) :=
    settle_carry (Value.same_rekeyBelow hInner _ _)
  cases first with
  | object as =>
      cases second with
      | object bs =>
          rw [Value.rekeyBelow, Value.rekeyBelow, merge,
            merge, mergeFields_rekeyFields hInner]
          cases mergeFields options as bs <;> rfl
      | null => rfl
      | _ => exact hSettle
  | null =>
      cases second with
      | object bs => rfl
      | _ => exact hSettle
  | _ => exact hSettle

end Transclusion
