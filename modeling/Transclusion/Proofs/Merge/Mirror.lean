import Transclusion.Proofs.Merge.Fields
import Transclusion.Proofs.Value.Same

/-
  Merges with the operands and the policies swapped.

  Key definitions include:
    * `Transclusion.MergeOptions.mirror`
    * `Transclusion.Agrees`

  Key theorems include:
    * `Transclusion.settle_mirror`
    * `Transclusion.mergeFields_agrees_of_mergeAt`
    * `Transclusion.mergeEntry_mirror`
    * `Transclusion.merge_mirror`

  Whatever a policy does with the first of two values, its
  mirror image does with the second.  A merge and its mirror
  image differ in the order of fields at most, so they are
  compared up to that order.
-/

------------------------------------------------------------
-- Mirrored Policies
------------------------------------------------------------

namespace Transclusion

/- The policy that keeps the value of the other side. -/
def KeyPolicy.mirror : KeyPolicy → KeyPolicy
  | first => second
  | second => first
  | error => error

/- The policy for arrays with the two sides swapped. -/
def ArrayPolicy.mirror : ArrayPolicy → ArrayPolicy
  | appendSecond => appendFirst
  | appendFirst => appendSecond
  | first => second
  | second => first
  | byKey => byKey

/- Policies with the two sides of a merge swapped. -/
def MergeOptions.mirror
    (options : MergeOptions) : MergeOptions where
  keyPolicy := options.keyPolicy.mirror
  arrayPolicy := options.arrayPolicy.mirror
  recursive := options.recursive

end Transclusion

------------------------------------------------------------
-- Agreement
------------------------------------------------------------

namespace Transclusion

/-
  Two results agree if both are failures, or if both are
  results of which a relation holds.
-/
inductive Agrees
    {ε α : Type}
    (R : α → α → Prop) :
    Except ε α → Except ε α → Prop where
  | ok {a b : α} (hRelated : R a b) :
      Agrees R (.ok a) (.ok b)
  | error (first second : ε) :
      Agrees R (.error first) (.error second)

namespace Agrees

variable {ε α β : Type}
variable {R : α → α → Prop}
variable {S : β → β → Prop}
variable {first second : Except ε α}

/-
  Two results agree if they succeed on the same terms and
  are related where they do.
-/
theorem iff_forall :
    Agrees R first second ↔
      ((∃ a, first = .ok a) ↔ ∃ b, second = .ok b) ∧
        ∀ a b, first = .ok a → second = .ok b → R a b := by
  constructor
  · rintro (hRelated | _) <;> simp_all
  · rintro ⟨hTerms, hRelated⟩
    cases first with
    | ok a =>
        rcases hTerms.mp ⟨a, rfl⟩ with ⟨b, rfl⟩
        exact .ok (hRelated a b rfl rfl)
    | error failure =>
        cases second with
        | ok b =>
            rcases hTerms.mpr ⟨b, rfl⟩ with ⟨a, hA⟩
            cases hA
        | error failure' => exact .error failure failure'

/- Agreement is carried over by what keeps the relation. -/
theorem map
    {f g : α → β}
    (hAgrees : Agrees R first second)
    (hCarry : ∀ a b, R a b → S (f a) (g b)) :
    Agrees S (first.map f) (second.map g) := by
  cases hAgrees with
  | ok hRelated => exact .ok (hCarry _ _ hRelated)
  | error failure failure' => exact .error failure failure'

end Agrees

end Transclusion

------------------------------------------------------------
-- Values as Wholes
------------------------------------------------------------

namespace Transclusion

variable {first second : Value}

/- Results that agree up to the order of fields. -/
abbrev AgreesAsValues
    (first second : Except MergeConflict Value) : Prop :=
  Agrees (fun a b => a.same b = true) first second

/-
  The value that is kept is the same one from either side;
  under the policy for errors it is one of two that are the
  same.
-/
theorem settle_mirror
    (policy : KeyPolicy)
    (hFirst : first.hasDistinctKeys = true)
    (hSecond : second.hasDistinctKeys = true) :
    AgreesAsValues (settle policy first second)
      (settle policy.mirror second first) := by
  unfold settle KeyPolicy.mirror
  cases policy with
  | first => exact .ok (Value.same_refl hFirst)
  | second => exact .ok (Value.same_refl hSecond)
  | error =>
      by_cases hSame : first.same second = true
      · have hBack := Value.same_symm hFirst hSecond hSame
        simp only [hSame, hBack, if_true]
        exact .ok hSame
      · have hBack : ¬ second.same first = true := by
          intro hSame'
          apply hSame
          exact Value.same_symm hSecond hFirst hSame'
        simp only [hSame, hBack]
        exact .error _ _

/- Arrays are put together alike from either side. -/
theorem mergeArrays_mirror
    (options : MergeOptions)
    {as bs : List Value}
    (hFirst : (Value.array as).hasDistinctKeys = true)
    (hSecond : (Value.array bs).hasDistinctKeys = true) :
    AgreesAsValues (mergeArrays options as bs)
      (mergeArrays options.mirror bs as) := by
  have hBoth := hFirst
  have hBoth' := hSecond
  rw [Value.hasDistinctKeys_array_iff] at hBoth hBoth'
  unfold mergeArrays MergeOptions.mirror ArrayPolicy.mirror
  cases options.arrayPolicy with
  | appendSecond =>
      refine .ok (Value.same_refl ?_)
      rw [Value.hasDistinctKeys_array_iff,
        List.forall_mem_append]
      exact ⟨hBoth, hBoth'⟩
  | appendFirst =>
      refine .ok (Value.same_refl ?_)
      rw [Value.hasDistinctKeys_array_iff,
        List.forall_mem_append]
      exact ⟨hBoth', hBoth⟩
  | first => exact .ok (Value.same_refl hFirst)
  | second => exact .ok (Value.same_refl hSecond)
  | byKey => exact settle_mirror _ hFirst hSecond

end Transclusion

------------------------------------------------------------
-- Fields
------------------------------------------------------------

namespace Transclusion

variable {options : MergeOptions}
variable {as bs : Fields}

/-
  Objects whose values merge alike under every key merge
  alike: they have the same keys, if in another order.
-/
theorem mergeFields_agrees_of_mergeAt
    {other : MergeOptions}
    (hFirst : (Fields.keys as).Nodup)
    (hSecond : (Fields.keys bs).Nodup)
    (hKeys :
      ∀ key,
        Agrees (Option.Rel fun a b => a.same b = true)
          (mergeAt options (Fields.get? as key)
            (Fields.get? bs key))
          (mergeAt other (Fields.get? bs key)
            (Fields.get? as key))) :
    Agrees
      (fun merged merged' =>
        (Value.object merged).same (.object merged') = true)
      (mergeFields options as bs)
      (mergeFields other bs as) := by
  have hTerms :=
    fun key => (Agrees.iff_forall.mp (hKeys key)).1
  refine Agrees.iff_forall.mpr ⟨⟨?_, ?_⟩, ?_⟩
  · rintro ⟨merged, hOk⟩
    refine exists_mergeFields hSecond fun key => ?_
    exact
      (hTerms key).mp ⟨_, mergeAt_of_mergeFields hOk key⟩
  · rintro ⟨merged, hOk⟩
    refine exists_mergeFields hFirst fun key => ?_
    exact
      (hTerms key).mpr ⟨_, mergeAt_of_mergeFields hOk key⟩
  intro merged merged' hOk hOk'
  have hNodup : (Fields.keys merged).Nodup := by
    rw [keys_of_mergeFields hOk]
    exact nodup_mergedKeys hFirst hSecond
  have hNodup' : (Fields.keys merged').Nodup := by
    rw [keys_of_mergeFields hOk']
    exact nodup_mergedKeys hSecond hFirst
  have hPerm :
      (Fields.keys merged).Perm (Fields.keys merged') := by
    rw [List.perm_ext_iff_of_nodup hNodup hNodup']
    intro key
    rw [keys_of_mergeFields hOk, keys_of_mergeFields hOk',
      mem_mergedKeys, mem_mergedKeys, or_comm]
  refine Value.same_object_iff.mpr ⟨?_, ?_⟩
  · have hLength := hPerm.length_eq
    simpa [Fields.keys] using hLength
  · intro key a hField
    have hRelated :=
      (Agrees.iff_forall.mp (hKeys key)).2 _ _
        (mergeAt_of_mergeFields hOk key)
        (mergeAt_of_mergeFields hOk' key)
    rw [Fields.get?_eq_some_of_mem hNodup hField]
      at hRelated
    cases hGet : Fields.get? merged' key with
    | none =>
        rw [hGet] at hRelated
        cases hRelated
    | some b =>
        rw [hGet] at hRelated
        cases hRelated with
        | some hSame => exact ⟨b, rfl, hSame⟩

/-
  Objects merge alike from either side if their values do
  under each key that both have.
-/
theorem mergeFields_mirror_of_forall
    (hFirst : (Value.object as).hasDistinctKeys = true)
    (hSecond : (Value.object bs).hasDistinctKeys = true)
    (hEntries :
      ∀ key a b, (key, a) ∈ as → (key, b) ∈ bs →
        AgreesAsValues (mergeEntry options a b)
          (mergeEntry options.mirror b a)) :
    Agrees
      (fun merged merged' =>
        (Value.object merged).same (.object merged') = true)
      (mergeFields options as bs)
      (mergeFields options.mirror bs as) := by
  rw [Value.hasDistinctKeys_object_iff] at hFirst hSecond
  refine
    mergeFields_agrees_of_mergeAt hFirst.1 hSecond.1 ?_
  intro key
  cases hA : Fields.get? as key with
  | none =>
      rw [mergeAt_none_left, mergeAt_none_right]
      cases hB : Fields.get? bs key with
      | none => exact .ok .none
      | some b =>
          have hMem := Fields.mem_of_get?_eq_some hB
          have hDistinct := hSecond.2 _ hMem
          exact .ok (.some (Value.same_refl hDistinct))
  | some a =>
      have hMemA := Fields.mem_of_get?_eq_some hA
      cases hB : Fields.get? bs key with
      | none =>
          rw [mergeAt_none_left, mergeAt_none_right]
          have hDistinct := hFirst.2 _ hMemA
          exact .ok (.some (Value.same_refl hDistinct))
      | some b =>
          have hMemB := Fields.mem_of_get?_eq_some hB
          unfold mergeAt
          exact
            (hEntries key a b hMemA hMemB).map
              fun _ _ hSame => .some hSame

/- What settles as a whole does so from either side. -/
theorem settlesWhole_mirror
    {first second : Value}
    (hWhole : options.SettlesWhole first second) :
    options.mirror.SettlesWhole second first := by
  constructor
  · rintro ⟨hRecursive, hSecond, hFirst⟩
    exact hWhole.1 ⟨hRecursive, hFirst, hSecond⟩
  · rintro ⟨hPolicy, hSecond, hFirst⟩
    refine hWhole.2 ⟨?_, hFirst, hSecond⟩
    intro hByKey
    apply hPolicy
    rw [MergeOptions.mirror, hByKey]
    rfl

/- Values under one key merge alike from either side. -/
theorem mergeEntry_mirror
    {first second : Value}
    (hFirst : first.hasDistinctKeys = true)
    (hSecond : second.hasDistinctKeys = true) :
    AgreesAsValues (mergeEntry options first second)
      (mergeEntry options.mirror second first) := by
  induction first, second using mergeEntry_induction options
      with
  | wholes first second hWhole =>
      rw [mergeEntry_of_settlesWhole hWhole,
        mergeEntry_of_settlesWhole
          (settlesWhole_mirror hWhole)]
      exact settle_mirror _ hFirst hSecond
  | arrays as bs _hPolicy =>
      rw [mergeEntry_arrays, mergeEntry_arrays]
      exact mergeArrays_mirror options hFirst hSecond
  | objects as bs hRecursive ih =>
      have hMirror : options.mirror.recursive = true :=
        hRecursive
      rw [mergeEntry_objects hRecursive,
        mergeEntry_objects hMirror]
      refine
        (mergeFields_mirror_of_forall hFirst hSecond ?_).map
          fun _ _ hSame => hSame
      intro key a b hA hB
      rw [Value.hasDistinctKeys_object_iff] at hFirst hSecond
      exact
        ih key a b hA hB (hFirst.2 _ hA) (hSecond.2 _ hB)

/- Objects merge alike from either side. -/
theorem mergeFields_mirror
    (hFirst : (Value.object as).hasDistinctKeys = true)
    (hSecond : (Value.object bs).hasDistinctKeys = true) :
    Agrees
      (fun merged merged' =>
        (Value.object merged).same (.object merged') = true)
      (mergeFields options as bs)
      (mergeFields options.mirror bs as) := by
  refine mergeFields_mirror_of_forall hFirst hSecond ?_
  intro key a b hA hB
  rw [Value.hasDistinctKeys_object_iff] at hFirst hSecond
  exact mergeEntry_mirror (hFirst.2 _ hA) (hSecond.2 _ hB)

end Transclusion

------------------------------------------------------------
-- Documents
------------------------------------------------------------

namespace Transclusion

/-
  A merge succeeds where its mirror image does, and the two
  come to the same value up to the order of fields.
-/
theorem merge_mirror
    (options : MergeOptions)
    {first second : Value}
    (hFirst : first.hasDistinctKeys = true)
    (hSecond : second.hasDistinctKeys = true) :
    ((∃ merged, merge options first second = .ok merged) ↔
        ∃ merged,
          merge options.mirror second first = .ok merged) ∧
      ∀ merged merged',
        merge options first second = .ok merged →
          merge options.mirror second first = .ok merged' →
            merged.same merged' = true := by
  suffices hAgrees :
      AgreesAsValues (merge options first second)
        (merge options.mirror second first) by
    exact Agrees.iff_forall.mp hAgrees
  unfold merge
  split
  · refine
      (mergeFields_mirror hFirst hSecond).map
        fun _ _ hSame => hSame
  · exact .ok (Value.same_refl hSecond)
  · exact .ok (Value.same_refl hFirst)
  · rename_i hObjects hNullLeft hNullRight
    split
    · exact (hObjects _ _ rfl rfl).elim
    · exact (hNullRight _ rfl rfl).elim
    · exact (hNullLeft _ rfl rfl).elim
    · exact settle_mirror _ hFirst hSecond

/- A document with a pool of connections. -/
def poolFields : Fields :=
  [("pool",
      .object
        [("min", .number (.double (.zero false))),
          ("hosts", .array [.string "a"])]),
    ("name", .string "base")]

/- A document with another pool and an owner. -/
def otherPoolFields : Fields :=
  [("owner", .null),
    ("pool",
      .object
        [("hosts", .array [.string "b"]),
          ("min", .number (.double (.zero true)))])]

/- Both documents, merged onto the first of them. -/
def mergedPoolFields : Fields :=
  [("pool",
      .object
        [("min", .number (.double (.zero false))),
          ("hosts", .array [.string "a", .string "b"])]),
    ("name", .string "base"), ("owner", .null)]

/- Both documents, merged onto the second of them. -/
def mirroredPoolFields : Fields :=
  [("owner", .null),
    ("pool",
      .object
        [("hosts", .array [.string "a", .string "b"]),
          ("min", .number (.double (.zero true)))]),
    ("name", .string "base")]

/-
  Under the policy for errors each side keeps its own zero
  and its own order of fields.
-/
theorem merge_mirror_pools :
    let options : MergeOptions := { keyPolicy := .error }
    let first := Value.object poolFields
    let second := Value.object otherPoolFields
    first.hasDistinctKeys = true ∧
      second.hasDistinctKeys = true ∧
      merge options first second =
          .ok (.object mergedPoolFields) ∧
      merge options.mirror second first =
          .ok (.object mirroredPoolFields) ∧
      (Value.object mergedPoolFields).same
          (.object mirroredPoolFields) = true := by
  intro options first second
  have hFirst : first.hasDistinctKeys = true := by
    decide +kernel
  have hSecond : second.hasDistinctKeys = true := by
    decide +kernel
  have hMerge :
      merge options first second =
        .ok (.object mergedPoolFields) := by
    decide +kernel
  have hMirror :
      merge options.mirror second first =
        .ok (.object mirroredPoolFields) := by
    decide +kernel
  exact
    ⟨hFirst, hSecond, hMerge, hMirror,
      (merge_mirror options hFirst hSecond).2 _ _ hMerge
        hMirror⟩

end Transclusion
