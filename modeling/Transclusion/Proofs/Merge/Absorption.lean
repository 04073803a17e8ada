import Transclusion.Proofs.Merge.Fields
import Transclusion.Proofs.Value.Same

/-
  Merges of a value that has been merged before.

  Key definitions include:
    * `Transclusion.MergeOptions.KeepsArrays`

  Key theorems include:
    * `Transclusion.mergedKeys_of_subset`
    * `Transclusion.absorbs_of_kept`
    * `Transclusion.mergeEntry_self`
    * `Transclusion.mergeEntry_absorbs`
    * `Transclusion.merge_absorbs`

  Unless arrays are put together, whatever two values leave
  under a key is one of theirs or an object that has taken
  in both.  Merging the second of them again finds only what
  it has brought itself.
-/

------------------------------------------------------------
-- Arrays That Do Not Grow
------------------------------------------------------------

namespace Transclusion

/- One of two arrays is kept, they are not put together. -/
def MergeOptions.KeepsArrays
    (options : MergeOptions) : Prop :=
  options.arrayPolicy ∈
    [ArrayPolicy.first, .second, .byKey]

instance
    (options : MergeOptions) :
    Decidable options.KeepsArrays :=
  inferInstanceAs (Decidable (_ ∈ _))

variable {options : MergeOptions}
variable {merged : Value}

/- Where arrays do not grow, one of two is kept. -/
theorem mergeArrays_kept
    {as bs : List Value}
    (hKeeps : options.KeepsArrays)
    (hOk : mergeArrays options as bs = .ok merged) :
    merged = .array as ∨ merged = .array bs := by
  unfold mergeArrays at hOk
  cases hPolicy : options.arrayPolicy with
  | appendSecond =>
      simp [MergeOptions.KeepsArrays, hPolicy] at hKeeps
  | appendFirst =>
      simp [MergeOptions.KeepsArrays, hPolicy] at hKeeps
  | first =>
      rw [hPolicy] at hOk
      exact .inl (Except.ok.inj hOk).symm
  | second =>
      rw [hPolicy] at hOk
      exact .inr (Except.ok.inj hOk).symm
  | byKey =>
      rw [hPolicy] at hOk
      exact settle_eq_ok_cases hOk

end Transclusion

------------------------------------------------------------
-- Values with Themselves
------------------------------------------------------------

namespace Transclusion

variable {options : MergeOptions}

/- A value settled with itself stays. -/
theorem settle_self
    (policy : KeyPolicy)
    {a : Value}
    (hDistinct : a.hasDistinctKeys = true) :
    settle policy a a = .ok a := by
  cases policy with
  | first => rfl
  | second => rfl
  | error => exact if_pos (Value.same_refl hDistinct)

/- An array that does not grow stays. -/
theorem mergeArrays_self
    {as : List Value}
    (hKeeps : options.KeepsArrays)
    (hDistinct : (Value.array as).hasDistinctKeys = true) :
    mergeArrays options as as = .ok (.array as) := by
  unfold mergeArrays
  cases hPolicy : options.arrayPolicy with
  | appendSecond =>
      simp [MergeOptions.KeepsArrays, hPolicy] at hKeeps
  | appendFirst =>
      simp [MergeOptions.KeepsArrays, hPolicy] at hKeeps
  | first => rfl
  | second => rfl
  | byKey => exact settle_self _ hDistinct

/- Keys that are there already add nothing. -/
theorem mergedKeys_of_subset
    {first second : List String}
    (hSubset : second ⊆ first) :
    mergedKeys first second = first := by
  have hNone :
      (second.filter fun key => key ∉ first) = [] := by
    rw [List.filter_eq_nil_iff]
    intro key hKey
    simpa using hSubset hKey
  rw [mergedKeys, hNone, List.append_nil]

/- An object stays if each of its values does. -/
theorem mergeFields_self_of_forall
    {fields : Fields}
    (hNodup : (Fields.keys fields).Nodup)
    (hEntries :
      ∀ field ∈ fields,
        mergeEntry options field.2 field.2 =
          .ok field.2) :
    mergeFields options fields fields = .ok fields := by
  rw [mergeFields_eq_ok_iff hNodup hNodup]
  refine
    ⟨(mergedKeys_of_subset (List.Subset.refl _)).symm, ?_⟩
  intro key
  cases hGet : Fields.get? fields key with
  | none => rfl
  | some value =>
      have hMem := Fields.mem_of_get?_eq_some hGet
      rw [mergeAt_some_some]
      exact ⟨value, hEntries _ hMem, rfl⟩

/- A value found under one key on both sides stays. -/
theorem mergeEntry_self
    {a : Value}
    (hKeeps : options.KeepsArrays)
    (hDistinct : a.hasDistinctKeys = true) :
    mergeEntry options a a = .ok a := by
  induction a using Value.induction with
  | plain a hPlain =>
      rw [mergeEntry_of_kind_ne (by simp [hPlain])
        (by simp [hPlain])]
      exact settle_self _ hDistinct
  | array as ih =>
      rw [mergeEntry_arrays]
      exact mergeArrays_self hKeeps hDistinct
  | object as ih =>
      rcases Value.hasDistinctKeys_object_iff.mp hDistinct
        with ⟨hNodup, hValues⟩
      by_cases hRecursive : options.recursive = true
      · rw [mergeEntry_objects hRecursive,
          mergeFields_self_of_forall hNodup
            fun field hField =>
              ih field hField (hValues field hField)]
        rfl
      · rw [mergeEntry_wholes hRecursive]
        exact settle_self _ hDistinct

/- An object merged with itself stays. -/
theorem mergeFields_self
    {fields : Fields}
    (hKeeps : options.KeepsArrays)
    (hDistinct :
      (Value.object fields).hasDistinctKeys = true) :
    mergeFields options fields fields = .ok fields := by
  rcases Value.hasDistinctKeys_object_iff.mp hDistinct with
    ⟨hNodup, hValues⟩
  refine mergeFields_self_of_forall hNodup ?_
  intro field hField
  exact mergeEntry_self hKeeps (hValues field hField)

/- A value merged with itself stays. -/
theorem merge_self
    {a : Value}
    (hKeeps : options.KeepsArrays)
    (hDistinct : a.hasDistinctKeys = true) :
    merge options a a = .ok a := by
  cases a with
  | object fields =>
      exact
        merge_objects_eq_ok_iff.mpr
          ⟨fields, mergeFields_self hKeeps hDistinct, rfl⟩
  | _ => exact settle_self _ hDistinct

end Transclusion

------------------------------------------------------------
-- Values Merged Before
------------------------------------------------------------

namespace Transclusion

variable {options : MergeOptions}

/-
  Where an operation keeps one of its operands and leaves
  the second one alone with itself, it makes no difference
  to apply it again.
-/
theorem absorbs_of_kept
    {ε α : Type}
    {op : α → α → Except ε α}
    {a b merged : α}
    (hSelf : op b b = .ok b)
    (hOk : op a b = .ok merged)
    (hKept : merged = a ∨ merged = b) :
    op merged b = .ok merged := by
  rcases hKept with rfl | rfl
  · exact hOk
  · exact hSelf

/-
  The merge of two objects takes in the second again, if
  their values do so under each key that both have.
-/
theorem mergeFields_absorbs_of_forall
    {as bs merged : Fields}
    (hKeeps : options.KeepsArrays)
    (hFirst : (Fields.keys as).Nodup)
    (hSecond : (Value.object bs).hasDistinctKeys = true)
    (hOk : mergeFields options as bs = .ok merged)
    (hEntries :
      ∀ key a b value, (key, a) ∈ as → (key, b) ∈ bs →
        mergeEntry options a b = .ok value →
          mergeEntry options value b = .ok value) :
    mergeFields options merged bs = .ok merged := by
  rcases Value.hasDistinctKeys_object_iff.mp hSecond with
    ⟨hNodup, hValues⟩
  have hKeys := keys_of_mergeFields hOk
  have hSubset : Fields.keys bs ⊆ Fields.keys merged := by
    intro key hKey
    rw [hKeys, mem_mergedKeys]
    exact .inr hKey
  have hMerged : (Fields.keys merged).Nodup := by
    rw [hKeys]
    exact nodup_mergedKeys hFirst hNodup
  rw [mergeFields_eq_ok_iff hMerged hNodup]
  refine ⟨(mergedKeys_of_subset hSubset).symm, ?_⟩
  intro key
  rcases get?_mergeFields_cases hOk key with
    ⟨hNone, _hKept⟩ | ⟨b, _hNone, hGet, hNew⟩ |
    ⟨a, b, value, hGetA, hGetB, hValue, hEntry⟩
  · rw [hNone, mergeAt_none_right]
  · have hMem := Fields.mem_of_get?_eq_some hGet
    rw [hGet, hNew, mergeAt_some_some]
    exact
      ⟨b, mergeEntry_self hKeeps (hValues _ hMem), rfl⟩
  · have hMemA := Fields.mem_of_get?_eq_some hGetA
    have hMemB := Fields.mem_of_get?_eq_some hGetB
    rw [hGetB, hValue, mergeAt_some_some]
    exact
      ⟨value, hEntries key a b value hMemA hMemB hEntry,
        rfl⟩

/-
  What two values under one key merge to takes in the second
  again.
-/
theorem mergeEntry_absorbs
    {a b merged : Value}
    (hKeeps : options.KeepsArrays)
    (hA : a.hasDistinctKeys = true)
    (hB : b.hasDistinctKeys = true)
    (hOk : mergeEntry options a b = .ok merged) :
    mergeEntry options merged b = .ok merged := by
  have hSelf := mergeEntry_self hKeeps hB
  induction a, b using mergeEntry_induction options
      generalizing merged with
  | wholes a b hWhole =>
      have hSettled := hOk
      rw [mergeEntry_of_settlesWhole hWhole] at hSettled
      exact
        absorbs_of_kept hSelf hOk
          (settle_eq_ok_cases hSettled)
  | arrays as bs _hPolicy =>
      have hArrays := hOk
      rw [mergeEntry_arrays] at hArrays
      exact
        absorbs_of_kept hSelf hOk
          (mergeArrays_kept hKeeps hArrays)
  | objects as bs hRecursive ih =>
      rcases (mergeEntry_objects_eq_ok_iff hRecursive).mp hOk
        with ⟨fields, hFields, rfl⟩
      rcases Value.hasDistinctKeys_object_iff.mp hA with
        ⟨hNodup, hValues⟩
      have hValues' :=
        (Value.hasDistinctKeys_object_iff.mp hB).2
      rw [mergeEntry_objects_eq_ok_iff hRecursive]
      refine ⟨fields, ?_, rfl⟩
      refine
        mergeFields_absorbs_of_forall hKeeps hNodup hB
          hFields ?_
      intro key a b value hMemA hMemB hEntry
      have hDistinct := hValues' _ hMemB
      exact
        ih key a b hMemA hMemB (hValues _ hMemA) hDistinct
          hEntry (mergeEntry_self hKeeps hDistinct)

/- The merge of two objects takes in the second again. -/
theorem mergeFields_absorbs
    {as bs merged : Fields}
    (hKeeps : options.KeepsArrays)
    (hA : (Value.object as).hasDistinctKeys = true)
    (hB : (Value.object bs).hasDistinctKeys = true)
    (hOk : mergeFields options as bs = .ok merged) :
    mergeFields options merged bs = .ok merged := by
  rcases Value.hasDistinctKeys_object_iff.mp hA with
    ⟨hNodup, hValues⟩
  have hValues' :=
    (Value.hasDistinctKeys_object_iff.mp hB).2
  refine
    mergeFields_absorbs_of_forall hKeeps hNodup hB hOk ?_
  intro key a b value hMemA hMemB hEntry
  exact
    mergeEntry_absorbs hKeeps (hValues _ hMemA)
      (hValues' _ hMemB) hEntry

/-
  Unless arrays are put together, a value merged with itself
  stays, and a value that another has been merged into stays
  when that one is merged into it again.
-/
theorem merge_absorbs
    {a b : Value}
    (hKeeps : options.KeepsArrays)
    (hA : a.hasDistinctKeys = true)
    (hB : b.hasDistinctKeys = true) :
    merge options a a = .ok a ∧
      ∀ merged, merge options a b = .ok merged →
        merge options merged b = .ok merged := by
  refine ⟨merge_self hKeeps hA, fun merged hOk => ?_⟩
  rcases merge_eq_ok_cases hOk with
    hFirst | hSecond |
    ⟨as, bs, fields, rfl, rfl, rfl, hFields⟩
  · exact
      absorbs_of_kept (merge_self hKeeps hB) hOk
        (.inl hFirst)
  · exact
      absorbs_of_kept (merge_self hKeeps hB) hOk
        (.inr hSecond)
  · have hAgain := mergeFields_absorbs hKeeps hA hB hFields
    exact merge_objects_eq_ok_iff.mpr ⟨fields, hAgain, rfl⟩

/- What a service says about itself. -/
def serviceFields : Fields :=
  [("cache", .string "none"), ("hosts", .array [.null]),
    ("log",
      .object
        [("level", .string "info"), ("file", .object [])])]

/- What its place adds to that. -/
def placeFields : Fields :=
  [("log",
      .object
        [("file", .string "app.log"),
          ("days", .array [.bool true]),
          ("level", .object [("all", .null)])]),
    ("hosts", .array [.string "a", .string "b"]),
    ("cache", .object [("size", .string "big")])]

/- The service in its place. -/
def placedFields : Fields :=
  [("cache", .string "none"),
    ("hosts", .array [.string "a", .string "b"]),
    ("log",
      .object
        [("level", .string "info"), ("file", .object []),
          ("days", .array [.bool true])])]

/-
  The first values and the second arrays are kept, and the
  place has nothing more to add.
-/
theorem merge_absorbs_place :
    let options : MergeOptions :=
      { keyPolicy := .first, arrayPolicy := .second }
    let service := Value.object serviceFields
    let place := Value.object placeFields
    let placed := Value.object placedFields
    options.KeepsArrays ∧
      service.hasDistinctKeys = true ∧
      place.hasDistinctKeys = true ∧
      merge options service service = .ok service ∧
      merge options service place = .ok placed ∧
      merge options placed place = .ok placed := by
  intro options service place placed
  have hKeeps : options.KeepsArrays := by
    decide
  have hService : service.hasDistinctKeys = true := by
    decide +kernel
  have hPlace : place.hasDistinctKeys = true := by
    decide +kernel
  have hPlaced :
      merge options service place = .ok placed := by
    decide +kernel
  have hAbsorbs := merge_absorbs hKeeps hService hPlace
  exact
    ⟨hKeeps, hService, hPlace, hAbsorbs.1, hPlaced,
      hAbsorbs.2 placed hPlaced⟩

end Transclusion
