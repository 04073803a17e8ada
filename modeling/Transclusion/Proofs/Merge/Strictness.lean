import Transclusion.Proofs.Merge.Fields
import Transclusion.Proofs.Merge.Total
import Transclusion.Proofs.Value.Same

/-
  Merges that succeed where no two values may differ.

  Key definitions include:
    * `Transclusion.MergeOptions.withKeyPolicy`
    * `Transclusion.KeyPolicy.Keeps`

  Key theorems include:
    * `Transclusion.settle_keeps`
    * `Transclusion.mergeFields_keeps_of_forall`
    * `Transclusion.mergeEntry_keeps`
    * `Transclusion.merge_of_strict`

  The policy for errors only restricts: where it finds no
  conflict, the other policies choose between values that
  are the same, so that it makes no difference to give it
  up.
-/

------------------------------------------------------------
-- Policies
------------------------------------------------------------

namespace Transclusion

/- The same policies with another one for keys. -/
def MergeOptions.withKeyPolicy
    (options : MergeOptions)
    (policy : KeyPolicy) : MergeOptions where
  keyPolicy := policy
  arrayPolicy := options.arrayPolicy
  recursive := options.recursive

/-
  A policy for keys keeps one value where the policy for
  errors has kept another: they are the same, and the very
  same unless the policy is for second values.
-/
structure KeyPolicy.Keeps
    (policy : KeyPolicy)
    (strict kept : Value) : Prop where
  same : strict.same kept = true
  eq : policy ≠ .second → kept = strict

end Transclusion

------------------------------------------------------------
-- Values as Wholes
------------------------------------------------------------

namespace Transclusion

variable {policy : KeyPolicy}
variable {options : MergeOptions}

/- A value is kept in its own place. -/
theorem KeyPolicy.keeps_self
    {a : Value}
    (hDistinct : a.hasDistinctKeys = true) :
    policy.Keeps a a where
  same := Value.same_refl hDistinct
  eq _hPolicy := rfl

/- Values settle under every policy if they are the same. -/
theorem settle_keeps
    {first second merged : Value}
    (hFirst : first.hasDistinctKeys = true)
    (hOk : settle .error first second = .ok merged) :
    ∃ kept, settle policy first second = .ok kept ∧
      policy.Keeps merged kept := by
  have hBoth :
      first.same second = true ∧ first = merged := by
    rw [settle] at hOk
    split at hOk
    · rename_i hSame
      exact ⟨hSame, Except.ok.inj hOk⟩
    · cases hOk
  rcases hBoth with ⟨hSame, rfl⟩
  cases policy with
  | first => exact ⟨first, rfl, KeyPolicy.keeps_self hFirst⟩
  | second => exact ⟨second, rfl, hSame, by simp⟩
  | error => exact ⟨first, hOk, KeyPolicy.keeps_self hFirst⟩

/- Arrays with a policy of their own ask for no other. -/
theorem mergeArrays_withKeyPolicy
    (hPolicy : options.arrayPolicy ≠ .byKey)
    (as bs : List Value)
    (one other : KeyPolicy) :
    mergeArrays (options.withKeyPolicy one) as bs =
      mergeArrays (options.withKeyPolicy other) as bs := by
  unfold mergeArrays MergeOptions.withKeyPolicy
  cases hArrays : options.arrayPolicy with
  | byKey => cases hPolicy hArrays
  | _ => rfl

end Transclusion

------------------------------------------------------------
-- Fields
------------------------------------------------------------

namespace Transclusion

variable {policy : KeyPolicy}
variable {options : MergeOptions}

/-
  What is kept in place of each field of an object makes up
  what is kept in place of the object.
-/
theorem KeyPolicy.keeps_object
    {strict kept : Fields}
    (hNodup : (Fields.keys strict).Nodup)
    (hKeys : Fields.keys strict = Fields.keys kept)
    (hKept :
      ∀ key,
        Option.Rel policy.Keeps (Fields.get? strict key)
          (Fields.get? kept key)) :
    policy.Keeps (.object strict) (.object kept) where
  same := by
    refine Value.same_object_iff.mpr ⟨?_, ?_⟩
    · simpa [Fields.keys] using congrArg List.length hKeys
    · intro key a hField
      have hRelated := hKept key
      rw [Fields.get?_eq_some_of_mem hNodup hField]
        at hRelated
      cases hGet : Fields.get? kept key with
      | none =>
          rw [hGet] at hRelated
          cases hRelated
      | some b =>
          rw [hGet] at hRelated
          cases hRelated with
          | some hKeeps => exact ⟨b, rfl, hKeeps.same⟩
  eq hPolicy := by
    have hEq :
        ∀ a b, Option.Rel policy.Keeps a b → a = b := by
      rintro _ _ (hKeeps | _)
      · rw [hKeeps.eq hPolicy]
      · rfl
    rw [Fields.ext hNodup hKeys
      fun key => hEq _ _ (hKept key)]

/-
  Objects that merge do so under every policy for keys, if
  that is so of the values of each key that both have.
-/
theorem mergeFields_keeps_of_forall
    {as bs merged : Fields}
    (hFirst : (Value.object as).hasDistinctKeys = true)
    (hSecond : (Value.object bs).hasDistinctKeys = true)
    (hOk :
      mergeFields (options.withKeyPolicy .error) as bs =
        .ok merged)
    (hEntries :
      ∀ key a b value, (key, a) ∈ as → (key, b) ∈ bs →
        mergeEntry (options.withKeyPolicy .error) a b =
            .ok value →
          ∃ kept,
            mergeEntry (options.withKeyPolicy policy) a b =
                .ok kept ∧
              policy.Keeps value kept) :
    ∃ kept,
      mergeFields (options.withKeyPolicy policy) as bs =
          .ok kept ∧
        policy.Keeps (.object merged) (.object kept) := by
  rcases Value.hasDistinctKeys_object_iff.mp hFirst with
    ⟨hNodup, hValues⟩
  rcases Value.hasDistinctKeys_object_iff.mp hSecond with
    ⟨hNodup', hValues'⟩
  have hAt :
      ∀ key, ∃ value,
        mergeAt (options.withKeyPolicy policy)
              (Fields.get? as key) (Fields.get? bs key) =
            .ok value ∧
          Option.Rel policy.Keeps (Fields.get? merged key)
            value := by
    intro key
    rcases get?_mergeFields_cases hOk key with
      ⟨hNone, hKept⟩ | ⟨b, hNone, hGet, hKept⟩ |
      ⟨a, b, value, hGetA, hGetB, hValue, hEntry⟩
    · rw [hNone, hKept]
      refine ⟨_, mergeAt_none_right _, ?_⟩
      cases hGet : Fields.get? as key with
      | none => exact .none
      | some a =>
          have hMem := Fields.mem_of_get?_eq_some hGet
          exact
            .some (KeyPolicy.keeps_self (hValues _ hMem))
    · have hMem := Fields.mem_of_get?_eq_some hGet
      rw [hNone, hGet, hKept]
      exact
        ⟨some b, mergeAt_none_left _,
          .some (KeyPolicy.keeps_self (hValues' _ hMem))⟩
    · have hMemA := Fields.mem_of_get?_eq_some hGetA
      have hMemB := Fields.mem_of_get?_eq_some hGetB
      rcases hEntries key a b value hMemA hMemB hEntry with
        ⟨kept, hKept, hKeeps⟩
      rw [hGetA, hGetB, hValue]
      exact
        ⟨some kept,
          (mergeAt_some_some a b _).mpr ⟨kept, hKept, rfl⟩,
          .some hKeeps⟩
  rcases exists_mergeFields_forall hNodup hAt with
    ⟨kept, hKept, hRelated⟩
  have hKeys := keys_of_mergeFields hOk
  refine ⟨kept, hKept, KeyPolicy.keeps_object ?_ ?_ hRelated⟩
  · rw [hKeys]
    exact nodup_mergedKeys hNodup hNodup'
  · rw [hKeys, keys_of_mergeFields hKept]

/- Values of one key merge under every policy for keys. -/
theorem mergeEntry_keeps
    {first second merged : Value}
    (hFirst : first.hasDistinctKeys = true)
    (hSecond : second.hasDistinctKeys = true)
    (hOk :
      mergeEntry (options.withKeyPolicy .error) first
          second =
        .ok merged) :
    ∃ kept,
      mergeEntry (options.withKeyPolicy policy) first
            second =
          .ok kept ∧
        policy.Keeps merged kept := by
  induction first, second using mergeEntry_induction options
      generalizing merged with
  | wholes first second hWhole =>
      have hAny :
          ∀ policy,
            (options.withKeyPolicy policy).SettlesWhole
              first second :=
        fun _ => hWhole
      rw [mergeEntry_of_settlesWhole (hAny .error)] at hOk
      rw [mergeEntry_of_settlesWhole (hAny policy)]
      exact settle_keeps hFirst hOk
  | arrays as bs hPolicy =>
      have hDistinct :=
        hasDistinctKeys_of_mergeEntry hFirst hSecond hOk
      rw [mergeEntry_arrays,
        mergeArrays_withKeyPolicy hPolicy as bs _ policy]
        at hOk
      exact
        ⟨merged, (mergeEntry_arrays as bs).trans hOk,
          KeyPolicy.keeps_self hDistinct⟩
  | objects as bs hRecursive ih =>
      have hAny :
          ∀ policy,
            (options.withKeyPolicy policy).recursive =
              true :=
        fun _ => hRecursive
      rcases (mergeEntry_objects_eq_ok_iff
          (hAny .error)).mp hOk with
        ⟨fields, hFields, rfl⟩
      have hValues :=
        (Value.hasDistinctKeys_object_iff.mp hFirst).2
      have hValues' :=
        (Value.hasDistinctKeys_object_iff.mp hSecond).2
      have hBelow :=
        mergeFields_keeps_of_forall hFirst hSecond hFields
          fun key a b value hA hB hEntry =>
            ih key a b hA hB (hValues _ hA) (hValues' _ hB)
              hEntry
      rcases hBelow with ⟨kept, hKept, hKeeps⟩
      exact
        ⟨.object kept,
          (mergeEntry_objects_eq_ok_iff
            (hAny policy)).mpr ⟨kept, hKept, rfl⟩,
          hKeeps⟩

/- Objects merge under every policy for keys. -/
theorem mergeFields_keeps
    {as bs merged : Fields}
    (hFirst : (Value.object as).hasDistinctKeys = true)
    (hSecond : (Value.object bs).hasDistinctKeys = true)
    (hOk :
      mergeFields (options.withKeyPolicy .error) as bs =
        .ok merged) :
    ∃ kept,
      mergeFields (options.withKeyPolicy policy) as bs =
          .ok kept ∧
        policy.Keeps (.object merged) (.object kept) := by
  have hValues :=
    (Value.hasDistinctKeys_object_iff.mp hFirst).2
  have hValues' :=
    (Value.hasDistinctKeys_object_iff.mp hSecond).2
  refine mergeFields_keeps_of_forall hFirst hSecond hOk ?_
  intro key a b value hA hB hEntry
  exact
    mergeEntry_keeps (hValues _ hA) (hValues' _ hB) hEntry

end Transclusion

------------------------------------------------------------
-- Documents
------------------------------------------------------------

namespace Transclusion

variable {options : MergeOptions}

/- Values merge under every policy for keys. -/
theorem merge_keeps
    (policy : KeyPolicy)
    {first second merged : Value}
    (hFirst : first.hasDistinctKeys = true)
    (hSecond : second.hasDistinctKeys = true)
    (hOk :
      merge (options.withKeyPolicy .error) first second =
        .ok merged) :
    ∃ kept,
      merge (options.withKeyPolicy policy) first second =
          .ok kept ∧
        policy.Keeps merged kept := by
  by_cases hObjects :
      first.kind = .object ∧ second.kind = .object
  · rcases exists_fields_of_merge hObjects.1 hObjects.2 hOk
      with ⟨as, bs, fields, rfl, rfl, rfl, hFields⟩
    rcases mergeFields_keeps hFirst hSecond hFields with
      ⟨kept, hKept, hKeeps⟩
    exact
      ⟨.object kept,
        merge_objects_eq_ok_iff.mpr ⟨kept, hKept, rfl⟩,
        hKeeps⟩
  · unfold merge at hOk ⊢
    split at hOk
    · exact absurd ⟨rfl, rfl⟩ hObjects
    · cases hOk
      exact ⟨_, rfl, KeyPolicy.keeps_self hSecond⟩
    · cases hOk
      exact ⟨_, rfl, KeyPolicy.keeps_self hFirst⟩
    · exact settle_keeps hFirst hOk

/-
  Where values merge under the policy for errors, they merge
  to the very same value if first values are kept, and to
  one that is the same if second values are.  Under these
  two policies all values merge.
-/
theorem merge_of_strict
    (options : MergeOptions)
    {first second : Value}
    (hFirst : first.hasDistinctKeys = true)
    (hSecond : second.hasDistinctKeys = true) :
    (∀ merged,
        merge (options.withKeyPolicy .error) first second =
            .ok merged →
          merge (options.withKeyPolicy .first) first
                second =
              .ok merged ∧
            ∃ kept,
              merge (options.withKeyPolicy .second) first
                    second =
                  .ok kept ∧
                merged.same kept = true) ∧
      ∀ policy, policy ≠ .error →
        ∃ merged,
          merge (options.withKeyPolicy policy) first
              second =
            .ok merged := by
  constructor
  · intro merged hOk
    rcases merge_keeps .first hFirst hSecond hOk with
      ⟨first', hFirst', hKeeps⟩
    rcases merge_keeps .second hFirst hSecond hOk with
      ⟨second', hSecond', hKeeps'⟩
    rw [hKeeps.eq (by simp)] at hFirst'
    exact ⟨hFirst', second', hSecond', hKeeps'.same⟩
  · intro policy hPolicy
    exact exists_merge hPolicy first second

/- A rate with the rules for it. -/
def rateFields : Fields :=
  [("rate",
      .object
        [("floor", .number (.double (.zero false))),
          ("rules",
            .array
              [.object [("a", .null), ("b", .bool true)]])]),
    ("name", .string "base")]

/- The same rate, written in another way, and an owner. -/
def sameRateFields : Fields :=
  [("name", .string "base"), ("owner", .null),
    ("rate",
      .object
        [("rules",
            .array
              [.object [("b", .bool true), ("a", .null)]]),
          ("floor", .number (.double (.zero true)))])]

/- Both, as the first of them is written. -/
def strictRateFields : Fields :=
  rateFields ++ [("owner", .null)]

/- Both, with the values of the second. -/
def relaxedRateFields : Fields :=
  [("rate",
      .object
        [("floor", .number (.double (.zero true))),
          ("rules",
            .array
              [.object [("b", .bool true), ("a", .null)]])]),
    ("name", .string "base"), ("owner", .null)]

/- The rate may be written in one way or the other. -/
theorem merge_of_strict_rates :
    let options : MergeOptions := { arrayPolicy := .byKey }
    let first := Value.object rateFields
    let second := Value.object sameRateFields
    let strict := Value.object strictRateFields
    let relaxed := Value.object relaxedRateFields
    first.hasDistinctKeys = true ∧
      second.hasDistinctKeys = true ∧
      merge (options.withKeyPolicy .error) first second =
          .ok strict ∧
      merge (options.withKeyPolicy .first) first second =
          .ok strict ∧
      merge (options.withKeyPolicy .second) first second =
          .ok relaxed ∧
      strict.same relaxed = true := by
  intro options first second strict relaxed
  have hFirst : first.hasDistinctKeys = true := by
    decide +kernel
  have hSecond : second.hasDistinctKeys = true := by
    decide +kernel
  have hStrict :
      merge (options.withKeyPolicy .error) first second =
        .ok strict := by
    decide +kernel
  have hRelaxed :
      merge (options.withKeyPolicy .second) first second =
        .ok relaxed := by
    decide +kernel
  rcases (merge_of_strict options hFirst hSecond).1 strict
      hStrict with
    ⟨hKept, kept, hOk, hSame⟩
  have hEq : kept = relaxed :=
    Except.ok.inj (hOk.symm.trans hRelaxed)
  rw [hEq] at hSame
  exact
    ⟨hFirst, hSecond, hStrict, hKept, hRelaxed, hSame⟩

end Transclusion
