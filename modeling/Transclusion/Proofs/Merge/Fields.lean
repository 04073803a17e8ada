import Transclusion.Merge
import Transclusion.Proofs.Value.Fields

/-
  What a merge does, key by key.

  Key definitions include:
    * `Transclusion.MergeOptions.SettlesWhole`
    * `Transclusion.mergedKeys`
    * `Transclusion.mergeAt`

  Key theorems include:
    * `Transclusion.mergeEntry_eq_ok_cases`
    * `Transclusion.mergeEntry_induction`
    * `Transclusion.keys_of_mergeFields`
    * `Transclusion.mergeAt_of_mergeFields`
    * `Transclusion.get?_mergeFields_cases`
    * `Transclusion.mergeFields_eq_ok_iff`
    * `Transclusion.merge_eq_ok_cases`
    * `Transclusion.hasDistinctKeys_of_mergeFields`

  The merge of two objects has the keys of the first and
  after them the new ones of the second, and under each key
  the merge of what the two have there.  Where keys are
  distinct, this determines it.
-/

------------------------------------------------------------
-- Values
------------------------------------------------------------

namespace Transclusion

variable {options : MergeOptions}
variable {first second merged : Value}

/- One of two values that are settled as wholes is kept. -/
theorem settle_eq_ok_cases
    {policy : KeyPolicy}
    (hOk : settle policy first second = .ok merged) :
    merged = first ∨ merged = second := by
  unfold settle at hOk
  split at hOk
  · exact .inl (Except.ok.inj hOk).symm
  · exact .inr (Except.ok.inj hOk).symm
  · split at hOk
    · exact .inl (Except.ok.inj hOk).symm
    · cases hOk

/- Two arrays are put together, or one of them is kept. -/
theorem mergeArrays_eq_ok_cases
    {as bs : List Value}
    (hOk : mergeArrays options as bs = .ok merged) :
    merged = .array as ∨ merged = .array bs ∨
      merged = .array (as ++ bs) ∨
        merged = .array (bs ++ as) := by
  unfold mergeArrays at hOk
  split at hOk
  · exact .inr (.inr (.inl (Except.ok.inj hOk).symm))
  · exact .inr (.inr (.inr (Except.ok.inj hOk).symm))
  · exact .inl (Except.ok.inj hOk).symm
  · exact .inr (.inl (Except.ok.inj hOk).symm)
  · rcases settle_eq_ok_cases hOk with hFirst | hSecond
    · exact .inl hFirst
    · exact .inr (.inl hSecond)

/- Two arrays under one key are combined. -/
@[simp]
theorem mergeEntry_arrays
    (as bs : List Value) :
    mergeEntry options (.array as) (.array bs) =
      mergeArrays options as bs := by
  rw [mergeEntry]

/- Two objects under one key merge field by field. -/
theorem mergeEntry_objects
    (hRecursive : options.recursive = true)
    (as bs : Fields) :
    mergeEntry options (.object as) (.object bs) =
      (mergeFields options as bs).map .object := by
  rw [mergeEntry, if_pos hRecursive, mergeFields]
  cases mergeShared options as bs <;> rfl

/- Two objects under one key merge if their fields do. -/
theorem mergeEntry_objects_eq_ok_iff
    (hRecursive : options.recursive = true)
    {as bs : Fields} :
    mergeEntry options (.object as) (.object bs) =
        .ok merged ↔
      ∃ fields, mergeFields options as bs = .ok fields ∧
        .object fields = merged := by
  rw [mergeEntry_objects hRecursive]
  cases mergeFields options as bs <;> simp [Except.map]

/- Two objects under one key are settled as wholes. -/
theorem mergeEntry_wholes
    (hWhole : options.recursive ≠ true)
    (as bs : Fields) :
    mergeEntry options (.object as) (.object bs) =
      settle options.keyPolicy (.object as)
        (.object bs) := by
  rw [mergeEntry, if_neg hWhole]

/- Two values of one key that are no collections settle. -/
theorem mergeEntry_of_kind_ne
    (hObjects :
      ¬ (first.kind = .object ∧ second.kind = .object))
    (hArrays :
      ¬ (first.kind = .array ∧ second.kind = .array)) :
    mergeEntry options first second =
      settle options.keyPolicy first second := by
  rw [mergeEntry]
  · rintro as bs rfl rfl
    exact hObjects ⟨rfl, rfl⟩
  · rintro as bs rfl rfl
    exact hArrays ⟨rfl, rfl⟩

/-
  Two values under one key become one of them, two arrays
  put together, or two objects merged field by field.
-/
theorem mergeEntry_eq_ok_cases
    (hOk : mergeEntry options first second = .ok merged) :
    merged = first ∨ merged = second ∨
      (∃ as bs, first = .array as ∧ second = .array bs ∧
        (merged = .array (as ++ bs) ∨
          merged = .array (bs ++ as))) ∨
      ∃ as bs fields,
        first = .object as ∧ second = .object bs ∧
          merged = .object fields ∧
            options.recursive = true ∧
              mergeFields options as bs = .ok fields := by
  by_cases hObjects :
      first.kind = .object ∧ second.kind = .object
  · rcases Value.kind_eq_object_iff.mp hObjects.1 with
      ⟨as, rfl⟩
    rcases Value.kind_eq_object_iff.mp hObjects.2 with
      ⟨bs, rfl⟩
    by_cases hRecursive : options.recursive = true
    · rcases (mergeEntry_objects_eq_ok_iff hRecursive).mp hOk
        with ⟨fields, hFields, rfl⟩
      exact
        .inr (.inr (.inr
          ⟨as, bs, fields, rfl, rfl, rfl, hRecursive,
            hFields⟩))
    · rw [mergeEntry_wholes hRecursive] at hOk
      rcases settle_eq_ok_cases hOk with hFirst | hSecond
      · exact .inl hFirst
      · exact .inr (.inl hSecond)
  · by_cases hArrays :
        first.kind = .array ∧ second.kind = .array
    · rcases Value.kind_eq_array_iff.mp hArrays.1 with
        ⟨as, rfl⟩
      rcases Value.kind_eq_array_iff.mp hArrays.2 with
        ⟨bs, rfl⟩
      rw [mergeEntry_arrays] at hOk
      rcases mergeArrays_eq_ok_cases hOk with
        hFirst | hSecond | hAppended
      · exact .inl hFirst
      · exact .inr (.inl hSecond)
      · exact
          .inr (.inr (.inl ⟨as, bs, rfl, rfl, hAppended⟩))
    · rw [mergeEntry_of_kind_ne hObjects hArrays] at hOk
      rcases settle_eq_ok_cases hOk with hFirst | hSecond
      · exact .inl hFirst
      · exact .inr (.inl hSecond)

end Transclusion

------------------------------------------------------------
-- Ways to Meet
------------------------------------------------------------

namespace Transclusion

/-
  Two values found under one key are settled as wholes,
  unless they are objects that merge field by field or
  arrays with a policy of their own.
-/
def MergeOptions.SettlesWhole
    (options : MergeOptions)
    (first second : Value) : Prop :=
  ¬ (options.recursive = true ∧
      first.kind = .object ∧ second.kind = .object) ∧
    ¬ (options.arrayPolicy ≠ .byKey ∧
        first.kind = .array ∧ second.kind = .array)

instance
    (options : MergeOptions)
    (first second : Value) :
    Decidable (options.SettlesWhole first second) :=
  inferInstanceAs (Decidable (_ ∧ _))

/- Where two values settle as wholes, they do nothing else. -/
theorem mergeEntry_of_settlesWhole
    {options : MergeOptions}
    {first second : Value}
    (hWhole : options.SettlesWhole first second) :
    mergeEntry options first second =
      settle options.keyPolicy first second := by
  by_cases hObjects :
      first.kind = .object ∧ second.kind = .object
  · rcases Value.kind_eq_object_iff.mp hObjects.1 with
      ⟨as, rfl⟩
    rcases Value.kind_eq_object_iff.mp hObjects.2 with
      ⟨bs, rfl⟩
    exact
      mergeEntry_wholes
        (fun hRecursive => hWhole.1 ⟨hRecursive, hObjects⟩)
        as bs
  · by_cases hArrays :
        first.kind = .array ∧ second.kind = .array
    · rcases Value.kind_eq_array_iff.mp hArrays.1 with
        ⟨as, rfl⟩
      rcases Value.kind_eq_array_iff.mp hArrays.2 with
        ⟨bs, rfl⟩
      have hPolicy : options.arrayPolicy = .byKey := by
        by_contra hPolicy
        exact hWhole.2 ⟨hPolicy, hArrays⟩
      rw [mergeEntry_arrays, mergeArrays, hPolicy]
    · exact mergeEntry_of_kind_ne hObjects hArrays

/-
  What holds of two values that settle as wholes, of arrays
  that are combined, and of objects if it holds of what they
  have under the same key, holds of every two values.
-/
@[elab_as_elim]
theorem mergeEntry_induction
    (options : MergeOptions)
    {motive : Value → Value → Prop}
    (wholes :
      ∀ a b, options.SettlesWhole a b → motive a b)
    (arrays :
      ∀ as bs, options.arrayPolicy ≠ .byKey →
        motive (.array as) (.array bs))
    (objects :
      ∀ as bs, options.recursive = true →
        (∀ key a b, (key, a) ∈ as → (key, b) ∈ bs →
          motive a b) →
        motive (.object as) (.object bs))
    (first second : Value) : motive first second := by
  induction first using Value.induction generalizing second
      with
  | plain first hPlain =>
      apply wholes
      simp [MergeOptions.SettlesWhole, hPlain]
  | array as ih =>
      by_cases hWhole :
          options.SettlesWhole (.array as) second
      · exact wholes _ _ hWhole
      · have hArrays :
            options.arrayPolicy ≠ .byKey ∧
              second.kind = .array := by
          simpa [MergeOptions.SettlesWhole] using hWhole
        rcases Value.kind_eq_array_iff.mp hArrays.2 with
          ⟨bs, rfl⟩
        exact arrays as bs hArrays.1
  | object as ih =>
      by_cases hWhole :
          options.SettlesWhole (.object as) second
      · exact wholes _ _ hWhole
      · have hObjects :
            options.recursive = true ∧
              second.kind = .object := by
          simpa [MergeOptions.SettlesWhole] using hWhole
        rcases Value.kind_eq_object_iff.mp hObjects.2 with
          ⟨bs, rfl⟩
        refine objects as bs hObjects.1 ?_
        intro key a b hA _hB
        exact ih _ hA b

end Transclusion

------------------------------------------------------------
-- Keys
------------------------------------------------------------

namespace Transclusion

/- The first keys, and after them the new ones. -/
def mergedKeys
    (first second : List String) : List String :=
  first ++ second.filter fun key => key ∉ first

/- A merged key is one of either side. -/
theorem mem_mergedKeys
    {first second : List String}
    {key : String} :
    key ∈ mergedKeys first second ↔
      key ∈ first ∨ key ∈ second := by
  by_cases hFirst : key ∈ first <;>
    simp [mergedKeys, hFirst]

/- Distinct keys stay distinct. -/
theorem nodup_mergedKeys
    {first second : List String}
    (hFirst : first.Nodup)
    (hSecond : second.Nodup) :
    (mergedKeys first second).Nodup := by
  refine
    List.nodup_append'.mpr
      ⟨hFirst, hSecond.filter _, ?_⟩
  intro key hKey hNew
  have hAbsent := (List.mem_filter.mp hNew).2
  exact of_decide_eq_true hAbsent hKey

/- The order of keys does not depend on the grouping. -/
theorem mergedKeys_assoc
    (first second third : List String) :
    mergedKeys (mergedKeys first second) third =
      mergedKeys first (mergedKeys second third) := by
  have hNew :
      (third.filter fun key =>
          key ∉ mergedKeys first second) =
        (third.filter fun key => key ∉ second).filter
          fun key => key ∉ first := by
    rw [List.filter_filter]
    refine List.filter_congr fun key _hKey => ?_
    simp [mem_mergedKeys]
  simp only [mergedKeys, List.filter_append,
    List.append_assoc]
  rw [← hNew]
  rfl

end Transclusion

------------------------------------------------------------
-- Fields
------------------------------------------------------------

namespace Transclusion

/-
  Merge what two objects have under one key, if they have
  anything there.
-/
def mergeAt
    (options : MergeOptions) :
    Option Value → Option Value →
      Except MergeConflict (Option Value)
  | some first, some second =>
      (mergeEntry options first second).map some
  | some first, none => .ok (some first)
  | none, second => .ok second

variable {options : MergeOptions}

/- Where the first side has nothing, the second is kept. -/
@[simp]
theorem mergeAt_none_left
    (second : Option Value) :
    mergeAt options none second = .ok second := by
  rfl

/- Where the second side has nothing, the first is kept. -/
@[simp]
theorem mergeAt_none_right
    (first : Option Value) :
    mergeAt options first none = .ok first := by
  cases first <;> rfl

/- Where both sides have something, it is merged. -/
@[simp]
theorem mergeAt_some_some
    (first second : Value)
    (merged : Option Value) :
    mergeAt options (some first) (some second) =
        .ok merged ↔
      ∃ value, mergeEntry options first second = .ok value ∧
        some value = merged := by
  rw [mergeAt]
  cases mergeEntry options first second <;>
    simp [Except.map]

/- Each shared field is merged by itself. -/
theorem mergeShared_cons_eq_ok_iff
    {key : String}
    {value : Value}
    {rest second shared : Fields} :
    mergeShared options ((key, value) :: rest) second =
        .ok shared ↔
      ∃ merged more,
        mergeAt options (some value)
            (Fields.get? second key) =
          .ok (some merged) ∧
        mergeShared options rest second = .ok more ∧
        (key, merged) :: more = shared := by
  rw [mergeShared]
  cases hGet : Fields.get? second key with
  | none =>
      cases hRest : mergeShared options rest second <;>
        simp [bind, Except.bind, pure, Except.pure]
  | some incoming =>
      cases hEntry : mergeEntry options value incoming <;>
        cases hRest : mergeShared options rest second <;>
          simp [bind, Except.bind, pure, Except.pure,
            Except.mapError, hEntry]

/- A merge of fields joins the shared and the new ones. -/
theorem mergeFields_eq_ok_iff_shared
    {first second merged : Fields} :
    mergeFields options first second = .ok merged ↔
      ∃ shared,
        mergeShared options first second = .ok shared ∧
          shared ++ newFields first second = merged := by
  rw [mergeFields]
  cases hShared : mergeShared options first second <;>
    simp [bind, Except.bind, pure, Except.pure]

/- Shared fields keep their keys. -/
theorem keys_of_mergeShared
    {first second shared : Fields}
    (hOk : mergeShared options first second = .ok shared) :
    Fields.keys shared = Fields.keys first := by
  induction first generalizing shared with
  | nil =>
      cases hOk
      rfl
  | cons field rest ih =>
      obtain ⟨key, value⟩ := field
      rcases mergeShared_cons_eq_ok_iff.mp hOk with
        ⟨merged, more, _hMerged, hMore, rfl⟩
      have hKeys := ih hMore
      simp only [Fields.keys] at hKeys ⊢
      rw [List.map_cons, List.map_cons, hKeys]

/- New fields are those whose keys are new. -/
theorem keys_newFields
    (first second : Fields) :
    Fields.keys (newFields first second) =
      (Fields.keys second).filter fun key =>
        key ∉ Fields.keys first := by
  change
    (second.filter _).map _ = (second.map _).filter _
  rw [List.filter_map]
  congr 1
  refine List.filter_congr fun field _hField => ?_
  by_cases hMem : field.1 ∈ Fields.keys first
  · have hHas := (Fields.hasKey_iff_mem_keys _ _).mpr hMem
    simp [hMem, hHas]
  · have hHas :=
      mt (Fields.hasKey_iff_mem_keys _ _).mp hMem
    simp [hMem, hHas]

/- A merge has the first keys and then the new ones. -/
theorem keys_of_mergeFields
    {first second merged : Fields}
    (hOk : mergeFields options first second = .ok merged) :
    Fields.keys merged =
      mergedKeys (Fields.keys first) (Fields.keys second) := by
  rcases mergeFields_eq_ok_iff_shared.mp hOk with
    ⟨shared, hShared, rfl⟩
  rw [Fields.keys_append, keys_of_mergeShared hShared,
    keys_newFields, mergedKeys]

end Transclusion

------------------------------------------------------------
-- Values by Key
------------------------------------------------------------

namespace Transclusion

variable {options : MergeOptions}
variable {first second merged : Fields}

/- New fields are found where the first object has none. -/
theorem get?_newFields
    (key : String) :
    Fields.get? (newFields first second) key =
      if key ∈ Fields.keys first then none
      else Fields.get? second key := by
  unfold newFields
  induction second with
  | nil => simp [Fields.get?]
  | cons field rest ih =>
      obtain ⟨name, value⟩ := field
      rw [Fields.get?_cons]
      by_cases hHas : Fields.hasKey first name = true
      · have hMem := (Fields.hasKey_iff_mem_keys _ _).mp hHas
        rw [List.filter_cons_of_neg (by simp [hHas]), ih]
        by_cases hName : name = key
        · subst hName
          simp [hMem]
        · rw [if_neg hName]
      · have hMem :=
          mt (Fields.hasKey_iff_mem_keys _ _).mpr hHas
        rw [List.filter_cons_of_pos (by simp [hHas]),
          Fields.get?_cons, ih]
        by_cases hName : name = key
        · subst hName
          simp [hMem]
        · rw [if_neg hName, if_neg hName]

/- Shared fields are found merged. -/
theorem mergeAt_of_mergeShared
    {shared : Fields}
    {key : String}
    {value : Value}
    (hOk : mergeShared options first second = .ok shared)
    (hGet : Fields.get? first key = some value) :
    mergeAt options (some value) (Fields.get? second key) =
      .ok (Fields.get? shared key) := by
  induction first generalizing shared with
  | nil => cases hGet
  | cons field rest ih =>
      obtain ⟨name, other⟩ := field
      rcases mergeShared_cons_eq_ok_iff.mp hOk with
        ⟨merged, more, hMerged, hMore, rfl⟩
      rw [Fields.get?_cons] at hGet ⊢
      by_cases hName : name = key
      · rw [if_pos hName, Option.some.injEq] at hGet
        subst hName hGet
        rw [if_pos rfl]
        exact hMerged
      · rw [if_neg hName] at hGet ⊢
        exact ih hMore hGet

/-
  Under each key a merge holds what the two objects have
  there, merged.
-/
theorem mergeAt_of_mergeFields
    (hOk : mergeFields options first second = .ok merged)
    (key : String) :
    mergeAt options (Fields.get? first key)
        (Fields.get? second key) =
      .ok (Fields.get? merged key) := by
  rcases mergeFields_eq_ok_iff_shared.mp hOk with
    ⟨shared, hShared, rfl⟩
  have hKeys := keys_of_mergeShared hShared
  rw [Fields.get?_append, get?_newFields]
  cases hGet : Fields.get? first key with
  | none =>
      have hAbsent := Fields.get?_eq_none_iff.mp hGet
      have hShared : Fields.get? shared key = none := by
        rw [Fields.get?_eq_none_iff, hKeys]
        exact hAbsent
      rw [hShared, if_neg hAbsent, Option.none_or,
        mergeAt_none_left]
  | some value =>
      have hPresent :=
        Fields.exists_get?_iff.mp ⟨value, hGet⟩
      rw [if_pos hPresent, Option.or_none]
      exact mergeAt_of_mergeShared hShared hGet

/-
  Under each key a merge holds what the first has there if
  the second has nothing, what the second has there if the
  first has nothing, and otherwise the two merged.
-/
theorem get?_mergeFields_cases
    (hOk : mergeFields options first second = .ok merged)
    (key : String) :
    (Fields.get? second key = none ∧
        Fields.get? merged key = Fields.get? first key) ∨
      (∃ b, Fields.get? first key = none ∧
        Fields.get? second key = some b ∧
          Fields.get? merged key = some b) ∨
      ∃ a b value,
        Fields.get? first key = some a ∧
          Fields.get? second key = some b ∧
            Fields.get? merged key = some value ∧
              mergeEntry options a b = .ok value := by
  have hAt := mergeAt_of_mergeFields hOk key
  cases hSecond : Fields.get? second key with
  | none =>
      rw [hSecond, mergeAt_none_right,
        Except.ok.injEq] at hAt
      exact .inl ⟨rfl, hAt.symm⟩
  | some b =>
      rw [hSecond] at hAt
      cases hFirst : Fields.get? first key with
      | none =>
          rw [hFirst, mergeAt_none_left,
            Except.ok.injEq] at hAt
          exact .inr (.inl ⟨b, rfl, rfl, hAt.symm⟩)
      | some a =>
          rw [hFirst, mergeAt_some_some] at hAt
          rcases hAt with ⟨value, hEntry, hValue⟩
          exact
            .inr (.inr
              ⟨a, b, value, rfl, rfl, hValue.symm, hEntry⟩)

/-
  Objects with distinct keys merge if what they have under
  each key does.
-/
theorem exists_mergeFields
    (hNodup : (Fields.keys first).Nodup)
    (hKeys :
      ∀ key, ∃ value,
        mergeAt options (Fields.get? first key)
            (Fields.get? second key) =
          .ok value) :
    ∃ merged,
      mergeFields options first second = .ok merged := by
  suffices hShared :
      ∃ shared,
        mergeShared options first second = .ok shared by
    rcases hShared with ⟨shared, hOk⟩
    exact
      ⟨_, mergeFields_eq_ok_iff_shared.mpr
        ⟨shared, hOk, rfl⟩⟩
  have hFields :
      ∀ key value, (key, value) ∈ first →
        ∃ merged,
          mergeAt options (some value)
              (Fields.get? second key) =
            .ok (some merged) := by
    intro key value hMem
    rcases hKeys key with ⟨merged, hMerged⟩
    rw [Fields.get?_eq_some_of_mem hNodup hMem] at hMerged
    cases merged with
    | some merged => exact ⟨merged, hMerged⟩
    | none => cases hGet : Fields.get? second key <;> simp_all
  clear hNodup hKeys
  induction first with
  | nil => exact ⟨[], rfl⟩
  | cons field rest ih =>
      obtain ⟨key, value⟩ := field
      rcases hFields key value List.mem_cons_self with
        ⟨merged, hMerged⟩
      rcases ih fun key value hMem =>
          hFields key value (List.mem_cons_of_mem _ hMem)
        with ⟨more, hMore⟩
      exact
        ⟨_, mergeShared_cons_eq_ok_iff.mpr
          ⟨merged, more, hMerged, hMore, rfl⟩⟩

/-
  What holds of the merge under each key holds under each
  key of the merge.
-/
theorem exists_mergeFields_forall
    {P : String → Option Value → Prop}
    (hNodup : (Fields.keys first).Nodup)
    (hKeys :
      ∀ key, ∃ value,
        mergeAt options (Fields.get? first key)
              (Fields.get? second key) =
            .ok value ∧
          P key value) :
    ∃ merged,
      mergeFields options first second = .ok merged ∧
        ∀ key, P key (Fields.get? merged key) := by
  rcases exists_mergeFields hNodup
      (fun key => (hKeys key).imp fun _ hBoth => hBoth.1)
    with ⟨merged, hOk⟩
  refine ⟨merged, hOk, fun key => ?_⟩
  rcases hKeys key with ⟨value, hValue, hHolds⟩
  rw [mergeAt_of_mergeFields hOk key,
    Except.ok.injEq] at hValue
  rw [hValue]
  exact hHolds

/-
  The merge of objects with distinct keys is the one object
  that has the merged keys and under each of them the merge
  of what the two have there.
-/
theorem mergeFields_eq_ok_iff
    (hFirst : (Fields.keys first).Nodup)
    (hSecond : (Fields.keys second).Nodup) :
    mergeFields options first second = .ok merged ↔
      Fields.keys merged =
          mergedKeys (Fields.keys first)
            (Fields.keys second) ∧
        ∀ key,
          mergeAt options (Fields.get? first key)
              (Fields.get? second key) =
            .ok (Fields.get? merged key) := by
  constructor
  · intro hOk
    exact
      ⟨keys_of_mergeFields hOk, mergeAt_of_mergeFields hOk⟩
  · rintro ⟨hKeys, hGet⟩
    rcases exists_mergeFields hFirst
        (fun key => ⟨_, hGet key⟩) with
      ⟨other, hOther⟩
    have hKeys' := keys_of_mergeFields hOther
    have hGet' := mergeAt_of_mergeFields hOther
    have hEq : other = merged := by
      refine Fields.ext ?_ (hKeys'.trans hKeys.symm) ?_
      · rw [hKeys']
        exact nodup_mergedKeys hFirst hSecond
      · intro key
        have hBoth := (hGet' key).symm.trans (hGet key)
        exact Except.ok.inj hBoth
    rw [hOther, hEq]

end Transclusion

------------------------------------------------------------
-- Objects
------------------------------------------------------------

namespace Transclusion

variable {options : MergeOptions}

/- Two objects merge as their fields do. -/
theorem merge_objects_eq_ok_iff
    {first second : Fields}
    {merged : Value} :
    merge options (.object first) (.object second) =
        .ok merged ↔
      ∃ fields,
        mergeFields options first second = .ok fields ∧
          .object fields = merged := by
  rw [merge]
  cases mergeFields options first second <;>
    simp [Except.map]

/- What two objects merge to is made of their fields. -/
theorem exists_fields_of_merge
    {first second merged : Value}
    (hFirst : first.kind = .object)
    (hSecond : second.kind = .object)
    (hOk : merge options first second = .ok merged) :
    ∃ as bs fields,
      first = .object as ∧ second = .object bs ∧
        merged = .object fields ∧
          mergeFields options as bs = .ok fields := by
  rcases Value.kind_eq_object_iff.mp hFirst with ⟨as, rfl⟩
  rcases Value.kind_eq_object_iff.mp hSecond with ⟨bs, rfl⟩
  rcases merge_objects_eq_ok_iff.mp hOk with
    ⟨fields, hFields, rfl⟩
  exact ⟨as, bs, fields, rfl, rfl, rfl, hFields⟩

/- Two values merge to one of them, or field by field. -/
theorem merge_eq_ok_cases
    {first second merged : Value}
    (hOk : merge options first second = .ok merged) :
    merged = first ∨ merged = second ∨
      ∃ as bs fields,
        first = .object as ∧ second = .object bs ∧
          merged = .object fields ∧
            mergeFields options as bs = .ok fields := by
  by_cases hObjects :
      first.kind = .object ∧ second.kind = .object
  · rcases exists_fields_of_merge hObjects.1 hObjects.2 hOk
      with
      ⟨as, bs, fields, hFirst, hSecond, hMerged, hFields⟩
    exact
      .inr (.inr
        ⟨as, bs, fields, hFirst, hSecond, hMerged, hFields⟩)
  · unfold merge at hOk
    split at hOk
    · exact absurd ⟨rfl, rfl⟩ hObjects
    · exact .inr (.inl (Except.ok.inj hOk).symm)
    · exact .inl (Except.ok.inj hOk).symm
    · rcases settle_eq_ok_cases hOk with hFirst | hSecond
      · exact .inl hFirst
      · exact .inr (.inl hSecond)

/- A shared field is kept or merged with its like. -/
theorem mem_mergeShared_cases
    {first second shared : Fields}
    {key : String}
    {value : Value}
    (hOk : mergeShared options first second = .ok shared)
    (hMem : (key, value) ∈ shared) :
    (key, value) ∈ first ∨
      ∃ a b, (key, a) ∈ first ∧ (key, b) ∈ second ∧
        mergeEntry options a b = .ok value := by
  induction first generalizing shared with
  | nil =>
      cases hOk
      cases hMem
  | cons field rest ih =>
      obtain ⟨name, a⟩ := field
      rcases mergeShared_cons_eq_ok_iff.mp hOk with
        ⟨merged, more, hMerged, hMore, rfl⟩
      rcases List.mem_cons.mp hMem with hHead | hRest
      · cases hHead
        cases hGet : Fields.get? second key with
        | none =>
            rw [hGet, mergeAt_none_right, Except.ok.injEq,
              Option.some.injEq] at hMerged
            subst hMerged
            exact .inl List.mem_cons_self
        | some b =>
            rw [hGet, mergeAt_some_some] at hMerged
            rcases hMerged with ⟨merged, hEntry, hEq⟩
            cases hEq
            exact
              .inr
                ⟨a, b, List.mem_cons_self,
                  Fields.mem_of_get?_eq_some hGet, hEntry⟩
      · rcases ih hMore hRest with
          hKept | ⟨a, b, hFirst, hSecond, hEntry⟩
        · exact .inl (List.mem_cons_of_mem _ hKept)
        · exact
            .inr
              ⟨a, b, List.mem_cons_of_mem _ hFirst, hSecond,
                hEntry⟩

/-
  A field of a merge is one of either side or merged of one
  from each.
-/
theorem mem_mergeFields_cases
    {first second merged : Fields}
    {key : String}
    {value : Value}
    (hOk : mergeFields options first second = .ok merged)
    (hMem : (key, value) ∈ merged) :
    (key, value) ∈ first ∨ (key, value) ∈ second ∨
      ∃ a b, (key, a) ∈ first ∧ (key, b) ∈ second ∧
        mergeEntry options a b = .ok value := by
  rcases mergeFields_eq_ok_iff_shared.mp hOk with
    ⟨shared, hShared, rfl⟩
  rcases List.mem_append.mp hMem with hOld | hNew
  · rcases mem_mergeShared_cases hShared hOld with
      hFirst | hBoth
    · exact .inl hFirst
    · exact .inr (.inr hBoth)
  · exact .inr (.inl (List.mem_filter.mp hNew).1)

end Transclusion

------------------------------------------------------------
-- Distinct Keys
------------------------------------------------------------

namespace Transclusion

variable {options : MergeOptions}

/-
  A merge of objects with distinct keys has distinct keys,
  if that is so of the values of the first.
-/
theorem hasDistinctKeys_of_mergeFields_of_forall
    {first second merged : Fields}
    (hFirst : (Value.object first).hasDistinctKeys = true)
    (hSecond : (Value.object second).hasDistinctKeys = true)
    (hOk : mergeFields options first second = .ok merged)
    (hEntries :
      ∀ field ∈ first, ∀ other value,
        other.hasDistinctKeys = true →
          mergeEntry options field.2 other = .ok value →
            value.hasDistinctKeys = true) :
    (Value.object merged).hasDistinctKeys = true := by
  rw [Value.hasDistinctKeys_object_iff] at hFirst hSecond ⊢
  constructor
  · rw [keys_of_mergeFields hOk]
    exact nodup_mergedKeys hFirst.1 hSecond.1
  · rintro ⟨key, value⟩ hField
    rcases mem_mergeFields_cases hOk hField with
      hMem | hMem | ⟨a, b, hA, hB, hEntry⟩
    · exact hFirst.2 _ hMem
    · exact hSecond.2 _ hMem
    · exact hEntries _ hA b value (hSecond.2 _ hB) hEntry

/- Values with distinct keys merge to such values. -/
theorem hasDistinctKeys_of_mergeEntry
    {first second merged : Value}
    (hFirst : first.hasDistinctKeys = true)
    (hSecond : second.hasDistinctKeys = true)
    (hOk : mergeEntry options first second = .ok merged) :
    merged.hasDistinctKeys = true := by
  induction first using Value.induction generalizing
      second merged with
  | plain first hPlain =>
      rcases mergeEntry_eq_ok_cases hOk with
        rfl | rfl | ⟨as, bs, rfl, _hArrays⟩ |
        ⟨as, bs, fields, rfl, _hObjects⟩
      · exact hFirst
      · exact hSecond
      · cases hPlain
      · cases hPlain
  | array as ih =>
      rcases mergeEntry_eq_ok_cases hOk with
        rfl | rfl | ⟨_, bs, hEq, rfl, hAppended⟩ |
        ⟨_, bs, fields, hEq, _hObjects⟩
      · exact hFirst
      · exact hSecond
      · cases hEq
        rw [Value.hasDistinctKeys_array_iff] at hFirst hSecond
        rcases hAppended with rfl | rfl <;>
          rw [Value.hasDistinctKeys_array_iff,
            List.forall_mem_append]
        · exact ⟨hFirst, hSecond⟩
        · exact ⟨hSecond, hFirst⟩
      · cases hEq
  | object as ih =>
      rcases mergeEntry_eq_ok_cases hOk with
        rfl | rfl | ⟨_, bs, hEq, _hArrays⟩ |
        ⟨_, bs, fields, hEq, rfl, rfl, _hRecursive, hFields⟩
      · exact hFirst
      · exact hSecond
      · cases hEq
      · cases hEq
        have hValues :=
          (Value.hasDistinctKeys_object_iff.mp hFirst).2
        exact
          hasDistinctKeys_of_mergeFields_of_forall hFirst
            hSecond hFields
            fun field hField _ _ =>
              ih field hField (hValues field hField)

/- Objects with distinct keys merge to such objects. -/
theorem hasDistinctKeys_of_mergeFields
    {first second merged : Fields}
    (hFirst : (Value.object first).hasDistinctKeys = true)
    (hSecond : (Value.object second).hasDistinctKeys = true)
    (hOk : mergeFields options first second = .ok merged) :
    (Value.object merged).hasDistinctKeys = true := by
  have hValues :=
    (Value.hasDistinctKeys_object_iff.mp hFirst).2
  exact
    hasDistinctKeys_of_mergeFields_of_forall hFirst hSecond
      hOk
      fun field hField _ _ =>
        hasDistinctKeys_of_mergeEntry (hValues field hField)

end Transclusion
