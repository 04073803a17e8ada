import Transclusion.Proofs.Merge.Fields
import Transclusion.Proofs.Value.KeyPath

/-
  The objects inside a merged object.

  Key definitions include:
    * `Transclusion.KeyPolicy.choose`
    * `Transclusion.MergeOptions.combine`
    * `Transclusion.IsMerge`

  Key theorems include:
    * `Transclusion.settle_eq_ok`
    * `Transclusion.mergeArrays_eq_ok`
    * `Transclusion.isMerge_of_mergeFields`
    * `Transclusion.isMerge_at_path`
    * `Transclusion.merge_shape`

  Wherever two objects meet in a merge, the object that
  comes of them has the keys of the first in their order and
  after them the new ones of the second in theirs, and each
  of its values is determined by the policies.
-/

------------------------------------------------------------
-- Choices
------------------------------------------------------------

namespace Transclusion

/-
  The one of two that a policy for keys keeps.  The policy
  for errors keeps the first, as long as they are the same.
-/
def KeyPolicy.choose
    {α : Type}
    (policy : KeyPolicy)
    (first second : α) : α :=
  match policy with
  | .first => first
  | .second => second
  | .error => first

/- The items of the array that two arrays become. -/
def MergeOptions.combine
    (options : MergeOptions)
    (first second : List Value) : List Value :=
  match options.arrayPolicy with
  | .appendSecond => first ++ second
  | .appendFirst => second ++ first
  | .first => first
  | .second => second
  | .byKey => options.keyPolicy.choose first second

variable {options : MergeOptions}
variable {merged : Value}

/- Two values settle on the one that is chosen. -/
theorem settle_eq_ok
    {policy : KeyPolicy}
    {first second : Value}
    (hOk : settle policy first second = .ok merged) :
    merged = policy.choose first second := by
  cases policy with
  | first => exact (Except.ok.inj hOk).symm
  | second => exact (Except.ok.inj hOk).symm
  | error =>
      rw [settle] at hOk
      split at hOk
      · exact (Except.ok.inj hOk).symm
      · cases hOk

/- Two arrays become the array of the combined items. -/
theorem mergeArrays_eq_ok
    {as bs : List Value}
    (hOk : mergeArrays options as bs = .ok merged) :
    merged = .array (options.combine as bs) := by
  unfold mergeArrays at hOk
  unfold MergeOptions.combine
  cases hPolicy : options.arrayPolicy with
  | byKey =>
      rw [hPolicy] at hOk
      rw [settle_eq_ok hOk]
      cases options.keyPolicy <;> rfl
  | _ =>
      rw [hPolicy] at hOk
      exact (Except.ok.inj hOk).symm

end Transclusion

------------------------------------------------------------
-- One Object
------------------------------------------------------------

namespace Transclusion

/-
  What an object merged of two others looks like: the order
  of its keys, the values of keys that only one of them has,
  and what becomes of two values under one key.
-/
structure IsMerge
    (options : MergeOptions)
    (first second merged : Fields) : Prop where
  keys :
    Fields.keys merged =
      mergedKeys (Fields.keys first) (Fields.keys second)
  firstOnly :
    ∀ key, key ∉ Fields.keys second →
      Fields.get? merged key = Fields.get? first key
  secondOnly :
    ∀ key, key ∉ Fields.keys first →
      Fields.get? merged key = Fields.get? second key
  arrays :
    ∀ key as bs,
      Fields.get? first key = some (.array as) →
        Fields.get? second key = some (.array bs) →
          Fields.get? merged key =
            some (.array (options.combine as bs))
  objects :
    ∀ key as bs, options.recursive = true →
      Fields.get? first key = some (.object as) →
        Fields.get? second key = some (.object bs) →
          ∃ fields,
            Fields.get? merged key = some (.object fields)
  wholes :
    ∀ key a b, Fields.get? first key = some a →
      Fields.get? second key = some b →
        options.SettlesWhole a b →
          Fields.get? merged key =
            some (options.keyPolicy.choose a b)

variable {options : MergeOptions}
variable {first second merged : Fields}
variable {key : String}

/- What both objects have under a key is found merged. -/
theorem get?_mergeFields_of_both
    {a b : Value}
    (hOk : mergeFields options first second = .ok merged)
    (hFirst : Fields.get? first key = some a)
    (hSecond : Fields.get? second key = some b) :
    ∃ value, Fields.get? merged key = some value ∧
      mergeEntry options a b = .ok value := by
  have hAt := mergeAt_of_mergeFields hOk key
  rw [hFirst, hSecond, mergeAt_some_some] at hAt
  rcases hAt with ⟨value, hEntry, hValue⟩
  exact ⟨value, hValue.symm, hEntry⟩

/- Two objects merge to one of that shape. -/
theorem isMerge_of_mergeFields
    (hOk : mergeFields options first second = .ok merged) :
    IsMerge options first second merged where
  keys := keys_of_mergeFields hOk
  firstOnly key hAbsent := by
    have hAt := mergeAt_of_mergeFields hOk key
    rw [Fields.get?_eq_none_iff.mpr hAbsent,
      mergeAt_none_right] at hAt
    exact (Except.ok.inj hAt).symm
  secondOnly key hAbsent := by
    have hAt := mergeAt_of_mergeFields hOk key
    rw [Fields.get?_eq_none_iff.mpr hAbsent,
      mergeAt_none_left] at hAt
    exact (Except.ok.inj hAt).symm
  arrays key as bs hFirst hSecond := by
    rcases get?_mergeFields_of_both hOk hFirst hSecond with
      ⟨value, hValue, hEntry⟩
    rw [mergeEntry_arrays] at hEntry
    rw [hValue, mergeArrays_eq_ok hEntry]
  objects key as bs hRecursive hFirst hSecond := by
    rcases get?_mergeFields_of_both hOk hFirst hSecond with
      ⟨value, hValue, hEntry⟩
    rcases (mergeEntry_objects_eq_ok_iff hRecursive).mp
        hEntry with
      ⟨fields, _hFields, rfl⟩
    exact ⟨fields, hValue⟩
  wholes key a b hFirst hSecond hWhole := by
    rcases get?_mergeFields_of_both hOk hFirst hSecond with
      ⟨value, hValue, hEntry⟩
    rw [mergeEntry_of_settlesWhole hWhole] at hEntry
    rw [hValue, settle_eq_ok hEntry]

end Transclusion

------------------------------------------------------------
-- Objects Inside
------------------------------------------------------------

namespace Transclusion

variable {options : MergeOptions}
variable {path : List String}

/- A path only leads to an object through objects. -/
theorem Value.exists_fields_of_at?
    {value : Value}
    {fields : Fields}
    (hAt : value.at? path = some (.object fields)) :
    ∃ own, value = .object own := by
  rw [← Value.kind_eq_object_iff]
  cases path with
  | nil =>
      cases hAt
      rfl
  | cons key rest =>
      by_contra hKind
      rw [Value.at?_cons_of_kind_ne hKind] at hAt
      cases hAt

/-
  Where a path leads to objects on both sides, it leads to
  an object of that shape in their merge.  The induction is
  on the path: each of its keys is one more pair of objects
  that are merged field by field.
-/
theorem isMerge_at_path
    {first second merged as bs : Fields}
    (hDepth : options.recursive = true ∨ path = [])
    (hOk : mergeFields options first second = .ok merged)
    (hFirst :
      (Value.object first).at? path = some (.object as))
    (hSecond :
      (Value.object second).at? path = some (.object bs)) :
    ∃ fields,
      (Value.object merged).at? path =
          some (.object fields) ∧
        IsMerge options as bs fields := by
  induction path generalizing first second merged with
  | nil =>
      cases hFirst
      cases hSecond
      exact ⟨merged, rfl, isMerge_of_mergeFields hOk⟩
  | cons key rest ih =>
      have hRecursive : options.recursive = true :=
        hDepth.resolve_right (List.cons_ne_nil key rest)
      rw [Value.at?_cons, Value.field?_object,
        Option.bind_eq_some_iff] at hFirst hSecond
      rcases hFirst with ⟨a, hGetA, hFirst⟩
      rcases hSecond with ⟨b, hGetB, hSecond⟩
      rcases Value.exists_fields_of_at? hFirst with
        ⟨innerAs, rfl⟩
      rcases Value.exists_fields_of_at? hSecond with
        ⟨innerBs, rfl⟩
      rcases get?_mergeFields_of_both hOk hGetA hGetB with
        ⟨value, hValue, hEntry⟩
      rcases (mergeEntry_objects_eq_ok_iff hRecursive).mp
          hEntry with
        ⟨inner, hInner, rfl⟩
      rcases ih (.inl hRecursive) hInner hFirst hSecond with
        ⟨fields, hAt, hShape⟩
      refine ⟨fields, ?_, hShape⟩
      rw [Value.at?_cons, Value.field?_object, hValue]
      exact hAt

/-
  The merge of two objects has distinct keys throughout, and
  wherever a path leads to objects on both sides, it leads
  to an object merged of these.  Without recursion that is
  the object at the root, and objects found under a key of
  it are settled as wholes.
-/
theorem merge_shape
    (options : MergeOptions)
    {first second : Fields}
    {merged : Value}
    (hFirst : (Value.object first).hasDistinctKeys = true)
    (hSecond : (Value.object second).hasDistinctKeys = true)
    (hOk :
      merge options (.object first) (.object second) =
        .ok merged) :
    merged.hasDistinctKeys = true ∧
      ∀ path as bs,
        options.recursive = true ∨ path = [] →
          (Value.object first).at? path =
              some (.object as) →
            (Value.object second).at? path =
                some (.object bs) →
              ∃ fields,
                merged.at? path = some (.object fields) ∧
                  IsMerge options as bs fields := by
  rcases merge_objects_eq_ok_iff.mp hOk with
    ⟨fields, hFields, rfl⟩
  constructor
  · exact hasDistinctKeys_of_mergeFields hFirst hSecond hFields
  · intro path as bs hDepth hAtFirst hAtSecond
    exact isMerge_at_path hDepth hFields hAtFirst hAtSecond

/- What a log keeps by default. -/
def logFields : Fields :=
  [("level", .string "info"),
    ("files", .array [.string "app.log"]),
    ("limits", .object [("days", .null)])]

/- What the log of one place keeps. -/
def placeLogFields : Fields :=
  [("color", .bool true),
    ("files", .array [.string "place.log"]),
    ("level", .object [("all", .string "debug")])]

/- What the log keeps there in the end. -/
def mergedLogFields : Fields :=
  [("level", .object [("all", .string "debug")]),
    ("files",
      .array [.string "place.log", .string "app.log"]),
    ("limits", .object [("days", .null)]),
    ("color", .bool true)]

/- Inside two documents, two logs are merged like this. -/
theorem merge_shape_logs :
    let options : MergeOptions :=
      { arrayPolicy := .appendFirst }
    let first : Fields :=
      [("name", .string "app"), ("log", .object logFields)]
    let second : Fields :=
      [("log", .object placeLogFields), ("host", .null)]
    let merged : Fields :=
      [("name", .string "app"),
        ("log", .object mergedLogFields), ("host", .null)]
    (Value.object first).hasDistinctKeys = true ∧
      (Value.object second).hasDistinctKeys = true ∧
      merge options (.object first) (.object second) =
          .ok (.object merged) ∧
      (Value.object first).at? ["log"] =
          some (.object logFields) ∧
      (Value.object second).at? ["log"] =
          some (.object placeLogFields) ∧
      IsMerge options logFields placeLogFields
        mergedLogFields := by
  intro options first second merged
  have hFirst :
      (Value.object first).hasDistinctKeys = true := by
    decide +kernel
  have hSecond :
      (Value.object second).hasDistinctKeys = true := by
    decide +kernel
  have hMerge :
      merge options (.object first) (.object second) =
        .ok (.object merged) := by
    decide +kernel
  rcases (merge_shape options hFirst hSecond hMerge).2
      ["log"] logFields placeLogFields (.inl rfl) rfl rfl
    with ⟨fields, hAt, hShape⟩
  have hFields : mergedLogFields = fields :=
    Value.object.inj (Option.some.inj hAt)
  rw [hFields]
  exact
    ⟨hFirst, hSecond, hMerge, rfl, rfl, hShape⟩

end Transclusion
