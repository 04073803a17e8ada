import Transclusion.Merge

/-
  Merges that never fail.

  Key theorems include:
    * `Transclusion.exists_mergeEntry_and_mergeShared`
    * `Transclusion.exists_merge`

  Two values only conflict under the policy that forbids it.
  Under any other, one of them is kept.
-/

------------------------------------------------------------
-- Values as Wholes
------------------------------------------------------------

namespace Transclusion

variable {options : MergeOptions}

/- Any policy but the one for errors settles two values. -/
theorem exists_settle
    {policy : KeyPolicy}
    (hPolicy : policy ≠ .error)
    (first second : Value) :
    ∃ settled, settle policy first second = .ok settled := by
  cases policy with
  | first => exact ⟨first, rfl⟩
  | second => exact ⟨second, rfl⟩
  | error => contradiction

/- Two arrays merge where two values settle. -/
theorem exists_mergeArrays
    (hPolicy : options.keyPolicy ≠ .error)
    (first second : List Value) :
    ∃ merged,
      mergeArrays options first second = .ok merged := by
  unfold mergeArrays
  cases options.arrayPolicy with
  | byKey => exact exists_settle hPolicy _ _
  | _ => exact ⟨_, rfl⟩

end Transclusion

------------------------------------------------------------
-- Fields
------------------------------------------------------------

namespace Transclusion

variable {options : MergeOptions}

/-
  Values under one key merge, and so do the fields that two
  objects share.
-/
theorem exists_mergeEntry_and_mergeShared
    (hPolicy : options.keyPolicy ≠ .error) :
    (∀ first second, ∃ merged,
        mergeEntry options first second = .ok merged) ∧
      ∀ first second, ∃ merged,
        mergeShared options first second = .ok merged := by
  refine
    mergeEntry.mutual_induct options
      (fun first second => ∃ merged,
        mergeEntry options first second = .ok merged)
      (fun first second => ∃ merged,
        mergeShared options first second = .ok merged)
      ?objects ?wholes ?arrays ?others ?nil ?shared ?alone
  case objects =>
    intro first second hRecursive ih
    rcases ih with ⟨shared, hShared⟩
    rw [mergeEntry, if_pos hRecursive, hShared]
    exact ⟨_, rfl⟩
  case wholes =>
    intro first second hWhole
    rw [mergeEntry, if_neg hWhole]
    exact exists_settle hPolicy _ _
  case arrays =>
    intro first second
    rw [mergeEntry]
    exact exists_mergeArrays hPolicy first second
  case others =>
    intro first second hNoObjects hNoArrays
    rw [mergeEntry]
    · exact exists_settle hPolicy first second
    · exact hNoObjects
    · exact hNoArrays
  case nil =>
    intro second
    exact ⟨[], rfl⟩
  case shared =>
    intro key value rest second incoming hIncoming hRest
      hValue
    rcases hValue with ⟨merged, hMerged⟩
    rcases hRest with ⟨more, hMore⟩
    rw [mergeShared, hIncoming, hMore]
    simp only [hMerged]
    exact ⟨_, rfl⟩
  case alone =>
    intro key value rest second hAlone hRest
    rcases hRest with ⟨more, hMore⟩
    rw [mergeShared, hAlone, hMore]
    exact ⟨_, rfl⟩

/- Any policy but the one for errors merges two values. -/
theorem exists_merge
    (hPolicy : options.keyPolicy ≠ .error)
    (first second : Value) :
    ∃ merged, merge options first second = .ok merged := by
  unfold merge
  split
  · rename_i as bs
    rcases (exists_mergeEntry_and_mergeShared hPolicy).2
        as bs with
      ⟨shared, hShared⟩
    rw [mergeFields, hShared]
    exact ⟨_, rfl⟩
  · exact ⟨_, rfl⟩
  · exact ⟨_, rfl⟩
  · exact exists_settle hPolicy first second

/- Under such a policy, no merge is in conflict. -/
theorem merge_ne_error
    (hPolicy : options.keyPolicy ≠ .error)
    (first second : Value)
    (clash : MergeConflict) :
    merge options first second ≠ .error clash := by
  intro hClash
  rcases exists_merge hPolicy first second with
    ⟨merged, hMerge⟩
  rw [hMerge] at hClash
  cases hClash

end Transclusion
