import Transclusion.Proofs.Merge.Sequence
import Transclusion.Proofs.Value.KeyPath

/-
  Which of many merged objects decides what is found by a
  path of keys.

  Key definitions include:
    * `Transclusion.MergeOptions.Overrides`
    * `Transclusion.Value.Decides`

  Key theorems include:
    * `Transclusion.mergeEntry_overrides_cases`
    * `Transclusion.at?_of_foldlM_merge`
    * `Transclusion.decides_of_foldlM_merge`

  Where later values replace earlier ones, the last object
  that touches a path decides, whatever the others have on
  the way of that path.
-/

------------------------------------------------------------
-- Decisions
------------------------------------------------------------

namespace Transclusion

/- Later values replace earlier ones, objects key by key. -/
structure MergeOptions.Overrides
    (options : MergeOptions) : Prop where
  keyPolicy : options.keyPolicy = .second
  recursive : options.recursive = true

/-
  What is found by a path, if one value decides about it:
  the plain value that is there, a value of the kind that is
  there, and nothing behind what is no object.
-/
structure Value.Decides
    (last : Value)
    (path : List String)
    (found : Option Value) : Prop where
  plain :
    ∀ value, last.at? path = some value →
      value.kind = .plain → found = some value
  kind :
    ∀ value, last.at? path = some value →
      found.map Value.kind = some value.kind
  cut : last.CutsOff path → found = none

namespace Value

variable {last value : Value}
variable {path : List String}
variable {found : Option Value}

/- A value decides about what it has itself. -/
theorem decides_self :
    last.Decides path (last.at? path) where
  plain value hValue _hPlain := hValue
  kind value hValue := by rw [hValue, Option.map_some]
  cut := at?_eq_none_of_cutsOff

/- What leaves a path alone has nothing to decide. -/
theorem decides_of_not_touches
    (hAlone : ¬ last.Touches path) :
    last.Decides path found where
  plain value hValue := by
    cases hAlone (.inl ⟨value, hValue⟩)
  kind value hValue := by
    cases hAlone (.inl ⟨value, hValue⟩)
  cut hCuts := by
    cases hAlone (.inr hCuts)

/- A collection decides that there is one of its kind. -/
theorem decides_nil
    (hPlain : last.kind ≠ .plain)
    (hKind : value.kind = last.kind) :
    last.Decides [] (value.at? []) where
  plain other hOther hOtherPlain := by
    cases hOther
    cases hPlain hOtherPlain
  kind other hOther := by
    cases hOther
    rw [at?_nil, Option.map_some, hKind]
  cut hCuts := by
    cases not_cutsOff_nil last hCuts

/- What is no object decides that it has nothing inside. -/
theorem decides_cons
    {key : String}
    {rest : List String}
    (hLast : last.kind ≠ .object)
    (hValue : value.kind ≠ .object) :
    last.Decides (key :: rest)
      (value.at? (key :: rest)) where
  plain other hOther := by
    rw [at?_cons_of_kind_ne hLast] at hOther
    cases hOther
  kind other hOther := by
    rw [at?_cons_of_kind_ne hLast] at hOther
    cases hOther
  cut _hCuts := at?_cons_of_kind_ne hValue key rest

/- An object decides as the value under the first key does. -/
theorem decides_object_cons
    {fields : Fields}
    {inner : Value}
    {key : String}
    {rest : List String}
    (hInner : Fields.get? fields key = some inner)
    (hDecides : inner.Decides rest found) :
    (Value.object fields).Decides (key :: rest) found := by
  have hAt :
      (Value.object fields).at? (key :: rest) =
        inner.at? rest := by
    rw [at?_cons, field?_object, hInner, Option.bind_some]
  constructor
  · rw [hAt]
    exact hDecides.plain
  · rw [hAt]
    exact hDecides.kind
  · intro hCuts
    rcases cutsOff_object_cons_iff.mp hCuts with
      ⟨inner', hInner', hCuts⟩
    rw [hInner, Option.some.injEq] at hInner'
    rw [← hInner'] at hCuts
    exact hDecides.cut hCuts

end Value

end Transclusion

------------------------------------------------------------
-- Two Values
------------------------------------------------------------

namespace Transclusion

variable {options : MergeOptions}
variable {first second merged : Value}
variable {path : List String}

/-
  A later value replaces an earlier one, unless both are
  arrays or both are objects.
-/
theorem mergeEntry_overrides_cases
    (hOverrides : options.Overrides)
    (hOk : mergeEntry options first second = .ok merged) :
    (merged = second ∧
        ¬ (first.kind = .object ∧ second.kind = .object)) ∨
      (second.kind = .array ∧ merged.kind = .array) ∨
      ∃ as bs fields,
        first = .object as ∧ second = .object bs ∧
          merged = .object fields ∧
            mergeFields options as bs = .ok fields := by
  by_cases hObjects :
      first.kind = .object ∧ second.kind = .object
  · rcases Value.kind_eq_object_iff.mp hObjects.1 with
      ⟨as, rfl⟩
    rcases Value.kind_eq_object_iff.mp hObjects.2 with
      ⟨bs, rfl⟩
    rcases (mergeEntry_objects_eq_ok_iff
        hOverrides.recursive).mp hOk with
      ⟨fields, hFields, rfl⟩
    exact
      .inr (.inr ⟨as, bs, fields, rfl, rfl, rfl, hFields⟩)
  · by_cases hArrays :
        first.kind = .array ∧ second.kind = .array
    · rcases Value.kind_eq_array_iff.mp hArrays.1 with
        ⟨as, rfl⟩
      rcases Value.kind_eq_array_iff.mp hArrays.2 with
        ⟨bs, rfl⟩
      rw [mergeEntry_arrays] at hOk
      rcases mergeArrays_eq_ok_cases hOk with
        rfl | rfl | rfl | rfl <;>
          exact .inr (.inl ⟨rfl, rfl⟩)
    · rw [mergeEntry_of_kind_ne hObjects hArrays,
        hOverrides.keyPolicy] at hOk
      exact .inl ⟨(Except.ok.inj hOk).symm, hObjects⟩

/-
  Where the later value leaves a path alone, the earlier one
  decides.
-/
theorem at?_of_mergeEntry
    (hOverrides : options.Overrides)
    (hAlone : ¬ second.Touches path)
    (hOk : mergeEntry options first second = .ok merged) :
    merged.at? path = first.at? path := by
  induction path generalizing first second merged with
  | nil => cases hAlone second.touches_nil
  | cons key rest ih =>
      have hNothing :=
        Value.at?_eq_none_of_not_touches hAlone
      rcases Value.not_touches_cons_iff.mp hAlone with
        ⟨hObject, hInner⟩
      rcases mergeEntry_overrides_cases hOverrides hOk with
        ⟨rfl, hNotBoth⟩ | ⟨hArray, _hMerged⟩ |
        ⟨as, bs, fields, rfl, rfl, rfl, hFields⟩
      · have hFirst : first.kind ≠ .object :=
          fun hFirst => hNotBoth ⟨hFirst, hObject⟩
        rw [hNothing, Value.at?_cons_of_kind_ne hFirst]
      · rw [hObject] at hArray
        cases hArray
      · rw [Value.at?_cons, Value.at?_cons,
          Value.field?_object, Value.field?_object]
        rcases get?_mergeFields_cases hFields key with
          ⟨_hNone, hKept⟩ | ⟨b, hNone, hSecond, hMerged⟩ |
          ⟨a, b, value, hFirst, hSecond, hMerged, hEntry⟩
        · rw [hKept]
        · rw [hNone, hMerged]
          exact
            Value.at?_eq_none_of_not_touches
              (hInner b hSecond)
        · rw [hFirst, hMerged]
          exact ih (hInner b hSecond) hEntry

/-
  The later of two values decides about each path, if it
  touches it.
-/
theorem decides_of_mergeEntry
    (hOverrides : options.Overrides)
    (hOk : mergeEntry options first second = .ok merged) :
    second.Decides path (merged.at? path) := by
  induction path generalizing first second merged with
  | nil =>
      rcases mergeEntry_overrides_cases hOverrides hOk with
        ⟨rfl, _hNotBoth⟩ | ⟨hArray, hMerged⟩ |
        ⟨as, bs, fields, rfl, rfl, rfl, _hFields⟩
      · exact Value.decides_self
      · exact
          Value.decides_nil (by simp [hArray])
            (hMerged.trans hArray.symm)
      · exact Value.decides_nil (by simp) rfl
  | cons key rest ih =>
      rcases mergeEntry_overrides_cases hOverrides hOk with
        ⟨rfl, _hNotBoth⟩ | ⟨hArray, hMerged⟩ |
        ⟨as, bs, fields, rfl, rfl, rfl, hFields⟩
      · exact Value.decides_self
      · exact
          Value.decides_cons (by simp [hArray])
            (by simp [hMerged])
      · rw [Value.at?_cons, Value.field?_object]
        rcases get?_mergeFields_cases hFields key with
          ⟨hNone, _hKept⟩ | ⟨b, _hNone, hSecond, hMerged⟩ |
          ⟨a, b, value, _hFirst, hSecond, hMerged, hEntry⟩
        · refine Value.decides_of_not_touches ?_
          rw [Value.not_touches_cons_iff]
          simp [hNone]
        · rw [hMerged, Option.bind_some]
          exact
            Value.decides_object_cons hSecond
              Value.decides_self
        · rw [hMerged, Option.bind_some]
          exact
            Value.decides_object_cons hSecond (ih hEntry)

/- Two objects merge as they would under one key. -/
theorem merge_eq_mergeEntry
    (hOverrides : options.Overrides)
    (hFirst : first.kind = .object)
    (hSecond : second.kind = .object) :
    merge options first second =
      mergeEntry options first second := by
  rcases Value.kind_eq_object_iff.mp hFirst with ⟨as, rfl⟩
  rcases Value.kind_eq_object_iff.mp hSecond with ⟨bs, rfl⟩
  rw [mergeEntry_objects hOverrides.recursive, merge]

end Transclusion

------------------------------------------------------------
-- Sequences
------------------------------------------------------------

namespace Transclusion

variable {options : MergeOptions}
variable {first merged : Value}
variable {path : List String}

/- Objects that leave a path alone do not decide about it. -/
theorem at?_of_foldlM_merge
    {documents : List Value}
    (hOverrides : options.Overrides)
    (hFirst : first.kind = .object)
    (hObjects :
      ∀ document ∈ documents, document.kind = .object)
    (hAlone :
      ∀ document ∈ documents, ¬ document.Touches path)
    (hOk :
      documents.foldlM (merge options) first =
        .ok merged) :
    merged.at? path = first.at? path := by
  induction documents generalizing first with
  | nil =>
      cases hOk
      rfl
  | cons document rest ih =>
      rw [List.forall_mem_cons] at hObjects hAlone
      rcases foldlM_merge_cons_eq_ok_iff.mp hOk with
        ⟨next, hNext, hRest⟩
      have hObject :=
        kind_of_merge hFirst hObjects.1 hNext
      rw [merge_eq_mergeEntry hOverrides hFirst
        hObjects.1] at hNext
      rw [ih hObject hObjects.2 hAlone.2 hRest,
        at?_of_mergeEntry hOverrides hAlone.1 hNext]

/-
  The last object that touches a path decides about it, the
  objects before and after it do not.
-/
theorem decides_of_foldlM_merge
    {before after : List Value}
    {last : Value}
    (hOverrides : options.Overrides)
    (hFirst : first.kind = .object)
    (hObjects :
      ∀ document ∈ before ++ last :: after,
        document.kind = .object)
    (hAlone :
      ∀ document ∈ after, ¬ document.Touches path)
    (hOk :
      (before ++ last :: after).foldlM (merge options)
          first =
        .ok merged) :
    last.Decides path (merged.at? path) := by
  rw [List.forall_mem_append,
    List.forall_mem_cons] at hObjects
  rcases foldlM_merge_append_eq_ok_iff.mp hOk with
    ⟨middle, hBefore, hLast⟩
  rcases foldlM_merge_cons_eq_ok_iff.mp hLast with
    ⟨next, hNext, hAfter⟩
  have hMiddle :=
    kind_of_foldlM_merge hFirst hObjects.1 hBefore
  have hObject :=
    kind_of_merge hMiddle hObjects.2.1 hNext
  rw [merge_eq_mergeEntry hOverrides hMiddle
    hObjects.2.1] at hNext
  rw [at?_of_foldlM_merge hOverrides hObject hObjects.2.2
    hAlone hAfter]
  exact decides_of_mergeEntry hOverrides hNext

end Transclusion
