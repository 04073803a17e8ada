import Mathlib.Data.List.Forall2
import Transclusion.Proofs.Merge.Fields

/-
  Merges of many values, one after another.

  Key theorems include:
    * `Transclusion.kind_of_merge`
    * `Transclusion.foldlM_merge_cons_eq_ok_iff`
    * `Transclusion.foldlM_merge_append_eq_ok_iff`
    * `Transclusion.foldlM_merge_filter`
    * `Transclusion.foldlM_merge_fold`

  An object without fields is neutral on either side, so it
  can begin every sequence and be left out of any.
-/

------------------------------------------------------------
-- Neutral Objects
------------------------------------------------------------

namespace Transclusion

variable {options : MergeOptions}

/- Nothing is changed by an object without fields in front. -/
theorem merge_empty_left
    {value : Value}
    (hObject : value.kind = .object) :
    merge options .empty value = .ok value := by
  rcases Value.kind_eq_object_iff.mp hObject with
    ⟨fields, rfl⟩
  rw [Value.empty, merge_objects_eq_ok_iff]
  refine ⟨fields, ?_, rfl⟩
  refine
    mergeFields_eq_ok_iff_shared.mpr ⟨[], rfl, ?_⟩
  simp [newFields, Fields.hasKey, Fields.get?]

/- Nothing is changed by an object without fields behind. -/
theorem merge_empty_right
    {value : Value}
    (hObject : value.kind = .object) :
    merge options value .empty = .ok value := by
  rcases Value.kind_eq_object_iff.mp hObject with
    ⟨fields, rfl⟩
  rw [Value.empty, merge_objects_eq_ok_iff]
  refine ⟨fields, ?_, rfl⟩
  refine
    mergeFields_eq_ok_iff_shared.mpr ⟨fields, ?_, ?_⟩
  · induction fields with
    | nil => rfl
    | cons field rest ih =>
        exact
          mergeShared_cons_eq_ok_iff.mpr
            ⟨field.2, rest, rfl, ih rfl, rfl⟩
  · simp [newFields]

/- Two objects merge to an object. -/
theorem kind_of_merge
    {first second merged : Value}
    (hFirst : first.kind = .object)
    (hSecond : second.kind = .object)
    (hOk : merge options first second = .ok merged) :
    merged.kind = .object := by
  rcases exists_fields_of_merge hFirst hSecond hOk with
    ⟨as, bs, fields, rfl, rfl, rfl, _hFields⟩
  rfl

end Transclusion

------------------------------------------------------------
-- Sequences
------------------------------------------------------------

namespace Transclusion

variable {options : MergeOptions}

/- The first two of some documents merge before the rest. -/
theorem foldlM_merge_cons_eq_ok_iff
    {first document merged : Value}
    {rest : List Value} :
    (document :: rest).foldlM (merge options) first =
        .ok merged ↔
      ∃ next, merge options first document = .ok next ∧
        rest.foldlM (merge options) next = .ok merged := by
  rw [List.foldlM_cons]
  cases merge options first document <;>
    simp [bind, Except.bind]

/- Merging objects does not mind those without fields. -/
theorem foldlM_merge_filter
    {first : Value}
    {documents : List Value}
    (hFirst : first.kind = .object)
    (hObjects :
      ∀ document ∈ documents, document.kind = .object) :
    (documents.filter fun document =>
          document ≠ .empty).foldlM
        (merge options) first =
      documents.foldlM (merge options) first := by
  induction documents generalizing first with
  | nil => rfl
  | cons document rest ih =>
      rw [List.forall_mem_cons] at hObjects
      by_cases hEmpty : document = .empty
      · subst hEmpty
        rw [List.filter_cons_of_neg (by simp),
          List.foldlM_cons, merge_empty_right hFirst]
        exact ih hFirst hObjects.2
      · rw [List.filter_cons_of_pos (by simpa using hEmpty),
          List.foldlM_cons, List.foldlM_cons]
        cases hNext : merge options first document with
        | error clash => rfl
        | ok next =>
            exact
              ih (kind_of_merge hFirst hObjects.1 hNext)
                hObjects.2

/- Some documents merge before those that follow them. -/
theorem foldlM_merge_append_eq_ok_iff
    {first merged : Value}
    {before after : List Value} :
    (before ++ after).foldlM (merge options) first =
        .ok merged ↔
      ∃ middle,
        before.foldlM (merge options) first = .ok middle ∧
          after.foldlM (merge options) middle =
            .ok merged := by
  rw [List.foldlM_append]
  cases before.foldlM (merge options) first <;>
    simp [bind, Except.bind]

/- Objects merge to an object. -/
theorem kind_of_foldlM_merge
    {first merged : Value}
    {documents : List Value}
    (hFirst : first.kind = .object)
    (hObjects :
      ∀ document ∈ documents, document.kind = .object)
    (hOk :
      documents.foldlM (merge options) first =
        .ok merged) :
    merged.kind = .object := by
  induction documents generalizing first with
  | nil =>
      cases hOk
      exact hFirst
  | cons document rest ih =>
      rw [List.forall_mem_cons] at hObjects
      rcases foldlM_merge_cons_eq_ok_iff.mp hOk with
        ⟨next, hNext, hRest⟩
      exact
        ih (kind_of_merge hFirst hObjects.1 hNext)
          hObjects.2 hRest

/-
  What a document merged with others adds to them is kept by
  every merge in order.
-/
theorem foldlM_merge_fold
    {P : List Value → Value → Prop}
    (hMerge :
      ∀ before after first second merged,
        P before first → P after second →
          merge options first second = .ok merged →
            P (before ++ after) merged)
    {groups : List (List Value)}
    {documents before : List Value}
    {first merged : Value}
    (hGroups : List.Forall₂ P groups documents)
    (hFirst : P before first)
    (hOk :
      documents.foldlM (merge options) first =
        .ok merged) :
    P (before ++ groups.flatten) merged := by
  induction hGroups generalizing before first with
  | nil =>
      cases hOk
      rw [List.flatten_nil, List.append_nil]
      exact hFirst
  | @cons group document groups documents hGroup _hRest
      ih =>
      rw [List.foldlM_cons] at hOk
      cases hNext : merge options first document with
      | error clash =>
          rw [hNext] at hOk
          cases hOk
      | ok next =>
          rw [hNext] at hOk
          rw [List.flatten_cons, ← List.append_assoc]
          exact ih (hMerge _ _ _ _ _ hFirst hGroup hNext) hOk

end Transclusion
