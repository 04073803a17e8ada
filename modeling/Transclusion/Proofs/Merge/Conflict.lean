import Mathlib.Data.List.Find
import Transclusion.Proofs.Merge.Fields
import Transclusion.Proofs.Merge.Total
import Transclusion.Proofs.Value.KeyPath

/-
  When a merge is in conflict, and at which path.

  Key definitions include:
    * `Transclusion.MeetsAt`
    * `Transclusion.ClashesAt`

  Key theorems include:
    * `Transclusion.clash?_mergeEntry`
    * `Transclusion.clash?_mergeShared`
    * `Transclusion.clash?_merge`
    * `Transclusion.merge_conflict`

  Under the policy for errors a merge is in conflict as soon
  as two different values meet where neither the fields of
  objects nor the items of arrays are put together.  It says
  where they meet, and of several such places it names the
  first one in the first value, depth first.
-/

------------------------------------------------------------
-- Meetings
------------------------------------------------------------

namespace Transclusion

/-
  Two operands stand for no objects, so that they are
  settled as wholes: they are neither two objects nor an
  object and a null.
-/
def OperandsMeet
    (first second : Value) : Prop :=
  ¬ (first.kind = .object ∧ second.kind = .object) ∧
    ¬ (first = .null ∧ second.kind = .object) ∧
      ¬ (first.kind = .object ∧ second = .null)

instance
    (first second : Value) :
    Decidable (OperandsMeet first second) :=
  inferInstanceAs (Decidable (_ ∧ _))

/-
  What two operands have at the end of a path meets there:
  the operands themselves at the end of the empty path, and
  otherwise values found under one key, more than one key
  deep only if objects merge field by field.
-/
structure MeetsAt
    (options : MergeOptions)
    (first second : Value)
    (path : List String)
    (a b : Value) : Prop where
  left : first.at? path = some a
  right : second.at? path = some b
  depth : options.recursive = true ∨ path.length ≤ 1
  operands : path = [] → OperandsMeet a b
  values : path ≠ [] → options.SettlesWhole a b

/- Different values meet at the end of a path. -/
def ClashesAt
    (options : MergeOptions)
    (first second : Value)
    (path : List String) : Prop :=
  ∃ a b, MeetsAt options first second path a b ∧
    a.same b = false

/- The path of the conflict that a merge ends in, if it does. -/
def clash?
    {α : Type} :
    Except MergeConflict α → Option (List String)
  | .ok _ => none
  | .error clash => some clash.path

/- Different values found under one key meet, here or below. -/
def EntriesClashAt
    (options : MergeOptions)
    (first second : Value)
    (path : List String) : Prop :=
  ∃ a b, first.at? path = some a ∧
    second.at? path = some b ∧
      (options.recursive = true ∨ path = []) ∧
        options.SettlesWhole a b ∧ a.same b = false

variable {options : MergeOptions}
variable {first second : Value}
variable {path : List String}

instance :
    Decidable (ClashesAt options first second path) :=
  decidable_of_iff
    (∃ a ∈ first.at? path, ∃ b ∈ second.at? path,
      (options.recursive = true ∨ path.length ≤ 1) ∧
        (path = [] → OperandsMeet a b) ∧
          (path ≠ [] → options.SettlesWhole a b) ∧
            a.same b = false)
    ⟨fun ⟨a, hA, b, hB, hDepth, hOperands, hValues,
        hDiffer⟩ =>
      ⟨a, b, ⟨hA, hB, hDepth, hOperands, hValues⟩, hDiffer⟩,
      fun ⟨a, b, hMeet, hDiffer⟩ =>
        ⟨a, hMeet.left, b, hMeet.right, hMeet.depth,
          hMeet.operands, hMeet.values, hDiffer⟩⟩

instance :
    Decidable (EntriesClashAt options first second path) :=
  decidable_of_iff
    (∃ a ∈ first.at? path, ∃ b ∈ second.at? path,
      (options.recursive = true ∨ path = []) ∧
        options.SettlesWhole a b ∧ a.same b = false)
    ⟨fun ⟨a, hA, b, hB, hRest⟩ => ⟨a, b, hA, hB, hRest⟩,
      fun ⟨a, b, hA, hB, hRest⟩ => ⟨a, hA, b, hB, hRest⟩⟩

end Transclusion

------------------------------------------------------------
-- Meetings along a Path
------------------------------------------------------------

namespace Transclusion

variable {options : MergeOptions}
variable {first second : Value}
variable {key : String}
variable {rest : List String}

/- Operands clash if they meet and differ. -/
theorem clashesAt_nil_iff :
    ClashesAt options first second [] ↔
      OperandsMeet first second ∧
        first.same second = false := by
  constructor
  · rintro ⟨a, b, hMeet, hDiffer⟩
    cases hMeet.left
    cases hMeet.right
    exact ⟨hMeet.operands rfl, hDiffer⟩
  · rintro ⟨hOperands, hDiffer⟩
    refine
      ⟨first, second, ⟨rfl, rfl, ?_, ?_, ?_⟩, hDiffer⟩
    · exact .inr (Nat.zero_le 1)
    · exact fun _ => hOperands
    · exact fun hNe => (hNe rfl).elim

/- Operands clash under a key as their values there do. -/
theorem clashesAt_cons_iff :
    ClashesAt options first second (key :: rest) ↔
      ∃ a b, first.field? key = some a ∧
        second.field? key = some b ∧
          EntriesClashAt options a b rest := by
  simp only [ClashesAt, EntriesClashAt]
  constructor
  · rintro ⟨x, y, hMeet, hDiffer⟩
    have hLeft := hMeet.left
    have hRight := hMeet.right
    rw [Value.at?_cons, Option.bind_eq_some_iff]
      at hLeft hRight
    rcases hLeft with ⟨a, hA, hX⟩
    rcases hRight with ⟨b, hB, hY⟩
    have hDepth : options.recursive = true ∨ rest = [] := by
      simpa using hMeet.depth
    exact
      ⟨a, b, hA, hB, x, y, hX, hY, hDepth,
        hMeet.values (by simp), hDiffer⟩
  · rintro ⟨a, b, hA, hB, x, y, hX, hY, hDepth, hWhole,
      hDiffer⟩
    refine ⟨x, y, ⟨?_, ?_, ?_, ?_, ?_⟩, hDiffer⟩
    · rw [Value.at?_cons, hA]
      exact hX
    · rw [Value.at?_cons, hB]
      exact hY
    · simpa using hDepth
    · exact fun hNil => (List.cons_ne_nil _ _ hNil).elim
    · exact fun _ => hWhole

/- Values of one key clash if they settle and differ. -/
theorem entriesClashAt_nil_iff :
    EntriesClashAt options first second [] ↔
      options.SettlesWhole first second ∧
        first.same second = false := by
  simp [EntriesClashAt]

/-
  Values of one key clash further inside as operands do, if
  objects merge field by field at all.
-/
theorem entriesClashAt_cons_iff :
    EntriesClashAt options first second (key :: rest) ↔
      options.recursive = true ∧
        ClashesAt options first second (key :: rest) := by
  rw [clashesAt_cons_iff]
  simp only [EntriesClashAt, Value.at?_cons,
    Option.bind_eq_some_iff]
  constructor
  · rintro ⟨x, y, ⟨a, hA, hX⟩, ⟨b, hB, hY⟩, hDepth, hClash⟩
    have hRecursive : options.recursive = true :=
      hDepth.resolve_right (List.cons_ne_nil key rest)
    exact
      ⟨hRecursive, a, b, hA, hB, x, y, hX, hY,
        .inl hRecursive, hClash⟩
  · rintro ⟨hRecursive, a, b, hA, hB, x, y, hX, hY, _hDepth,
      hClash⟩
    exact
      ⟨x, y, ⟨a, hA, hX⟩, ⟨b, hB, hY⟩, .inl hRecursive,
        hClash⟩

/- Nothing clashes under a key of what is no two objects. -/
theorem not_clashesAt_cons
    (hKinds :
      ¬ (first.kind = .object ∧ second.kind = .object)) :
    ¬ ClashesAt options first second (key :: rest) := by
  rw [clashesAt_cons_iff]
  rintro ⟨a, b, hA, hB, _hClash⟩
  apply hKinds
  constructor
  · by_contra hKind
    rw [Value.field?_of_kind_ne hKind] at hA
    cases hA
  · by_contra hKind
    rw [Value.field?_of_kind_ne hKind] at hB
    cases hB

end Transclusion

------------------------------------------------------------
-- Values of One Key
------------------------------------------------------------

namespace Transclusion

variable {options : MergeOptions}

/- A result with its value carried over has its conflict. -/
@[simp]
theorem clash?_map
    {α β : Type}
    (f : α → β)
    (result : Except MergeConflict α) :
    clash? (result.map f) = clash? result := by
  cases result <;> rfl

/- A path is that of the conflict at its end. -/
theorem clash?_eq_some_iff
    {α : Type}
    {result : Except MergeConflict α}
    {path : List String} :
    clash? result = some path ↔ result = .error ⟨path⟩ := by
  rcases result with ⟨⟨clash⟩⟩ | value <;> simp [clash?]

/- Two values settled as wholes clash if they differ. -/
theorem clash?_settle
    (first second : Value) :
    clash? (settle .error first second) =
      if first.same second = true then none else some [] := by
  rw [settle]
  split <;> rfl

/- Arrays with a policy of their own never clash. -/
theorem clash?_mergeArrays
    (hPolicy : options.arrayPolicy ≠ .byKey)
    (as bs : List Value) :
    clash? (mergeArrays options as bs) = none := by
  unfold mergeArrays
  cases hArrays : options.arrayPolicy with
  | byKey => cases hPolicy hArrays
  | _ => rfl

/- Values of one key that settle clash where they are. -/
theorem clash?_mergeEntry_of_settlesWhole
    {first second : Value}
    (hStrict : options.keyPolicy = .error)
    (hWhole : options.SettlesWhole first second) :
    clash? (mergeEntry options first second) =
      first.paths.find? fun path =>
        EntriesClashAt options first second path := by
  rw [mergeEntry_of_settlesWhole hWhole, hStrict,
    clash?_settle, Value.find?_paths_of_not_cons]
  · cases hSame : first.same second <;>
      simp [entriesClashAt_nil_iff, hWhole, hSame]
  · intro key rest hClash
    rw [entriesClashAt_cons_iff] at hClash
    refine not_clashesAt_cons ?_ hClash.2
    exact fun hKinds => hWhole.1 ⟨hClash.1, hKinds⟩

end Transclusion

------------------------------------------------------------
-- Fields
------------------------------------------------------------

namespace Transclusion

variable {options : MergeOptions}

/- The first field clashes before those behind it. -/
theorem clash?_mergeShared_cons
    (key : String)
    (value : Value)
    (rest second : Fields) :
    clash? (mergeShared options ((key, value) :: rest)
        second) =
      ((Fields.get? second key).bind fun incoming =>
          (clash? (mergeEntry options value incoming)).map
            (key :: ·)).or
        (clash? (mergeShared options rest second)) := by
  rw [mergeShared]
  cases Fields.get? second key with
  | none =>
      cases mergeShared options rest second <;> rfl
  | some incoming =>
      cases hEntry : mergeEntry options value incoming <;>
        cases mergeShared options rest second <;>
          simp [clash?, bind, Except.bind, pure,
            Except.pure, Except.mapError,
            MergeConflict.under, hEntry]

/- The first path to a conflict goes through the first field. -/
theorem find?_fieldPaths_cons
    {key : String}
    {value : Value}
    {rest second : Fields}
    (hNew : key ∉ Fields.keys rest) :
    ((Value.fieldPaths ((key, value) :: rest)).find?
        fun path =>
          ClashesAt options
            (.object ((key, value) :: rest))
            (.object second) path) =
      ((Fields.get? second key).bind fun incoming =>
          (value.paths.find? fun path =>
            EntriesClashAt options value incoming
              path).map (key :: ·)).or
        ((Value.fieldPaths rest).find? fun path =>
          ClashesAt options (.object rest) (.object second)
            path) := by
  rw [Value.fieldPaths, List.find?_append, List.find?_map]
  congr 1
  · -- Paths that begin with the key lead into its value.
    have hFirst :
        ∀ path,
          ClashesAt options
              (.object ((key, value) :: rest))
              (.object second) (key :: path) ↔
            ∃ incoming, Fields.get? second key =
                some incoming ∧
              EntriesClashAt options value incoming
                path := by
      intro path
      simp [clashesAt_cons_iff, Fields.get?_cons]
    cases hGet : Fields.get? second key with
    | none => simp [hFirst, hGet]
    | some incoming => simp [hFirst, hGet]
  · -- The other paths begin with other keys.
    refine List.find?_congr fun path hPath => ?_
    rcases Value.mem_fieldPaths_iff.mp hPath with
      ⟨other, inner, tail, hField, _hTail, rfl⟩
    have hNe : key ≠ other := by
      rintro rfl
      exact hNew (List.mem_map.mpr ⟨_, hField, rfl⟩)
    simp [clashesAt_cons_iff, Fields.get?_cons, hNe]

/-
  Fields that two objects share clash where the objects do,
  if that is so of the values of the first.
-/
theorem clash?_mergeShared
    {first : Fields}
    (second : Fields)
    (hNodup : (Fields.keys first).Nodup)
    (hEntries :
      ∀ key a b, (key, a) ∈ first → (key, b) ∈ second →
        clash? (mergeEntry options a b) =
          a.paths.find? fun path =>
            EntriesClashAt options a b path) :
    clash? (mergeShared options first second) =
      (Value.fieldPaths first).find? fun path =>
        ClashesAt options (.object first) (.object second)
          path := by
  induction first with
  | nil => rfl
  | cons field rest ih =>
      obtain ⟨key, value⟩ := field
      rw [Fields.keys, List.map_cons,
        List.nodup_cons] at hNodup
      have hRest :=
        ih hNodup.2 fun key a b hA =>
          hEntries key a b (List.mem_cons_of_mem _ hA)
      rw [clash?_mergeShared_cons,
        find?_fieldPaths_cons hNodup.1, hRest]
      cases hGet : Fields.get? second key with
      | none => rfl
      | some incoming =>
          have hFirst :=
            hEntries key value incoming List.mem_cons_self
              (Fields.mem_of_get?_eq_some hGet)
          simp only [Option.bind_some, hFirst]

/- Merged objects clash where the fields that they share do. -/
theorem clash?_mergeFields
    (first second : Fields) :
    clash? (mergeFields options first second) =
      clash? (mergeShared options first second) := by
  rw [mergeFields]
  cases mergeShared options first second <;> rfl

/- Operands that are objects clash under their keys only. -/
theorem find?_paths_of_objects
    (first second : Fields) :
    ((Value.object first).paths.find? fun path =>
        ClashesAt options (.object first) (.object second)
          path) =
      (Value.fieldPaths first).find? fun path =>
        ClashesAt options (.object first) (.object second)
          path := by
  have hHere :
      ¬ ClashesAt options (.object first) (.object second)
          [] := by
    simp [clashesAt_nil_iff, OperandsMeet]
  rw [Value.paths_object]
  exact List.find?_cons_of_neg (by simpa using hHere)

/-
  Objects of one key that merge field by field clash as
  operands do.
-/
theorem find?_paths_of_entries
    (hRecursive : options.recursive = true)
    (first second : Fields) :
    ((Value.object first).paths.find? fun path =>
        EntriesClashAt options (.object first)
          (.object second) path) =
      (Value.object first).paths.find? fun path =>
        ClashesAt options (.object first) (.object second)
          path := by
  refine List.find?_congr fun path _hPath => ?_
  cases path with
  | nil =>
      simp [entriesClashAt_nil_iff, clashesAt_nil_iff,
        MergeOptions.SettlesWhole, OperandsMeet, hRecursive]
  | cons key rest =>
      simp [entriesClashAt_cons_iff, hRecursive]

/-
  Values of one key clash at the first path where they do,
  depth first.
-/
theorem clash?_mergeEntry
    {first : Value}
    (second : Value)
    (hStrict : options.keyPolicy = .error)
    (hDistinct : first.hasDistinctKeys = true) :
    clash? (mergeEntry options first second) =
      first.paths.find? fun path =>
        EntriesClashAt options first second path := by
  induction first, second using mergeEntry_induction options
      with
  | wholes first second hWhole =>
      exact clash?_mergeEntry_of_settlesWhole hStrict hWhole
  | arrays as bs hPolicy =>
      rw [mergeEntry_arrays, clash?_mergeArrays hPolicy,
        Value.paths_of_kind_ne (by simp)]
      simp [entriesClashAt_nil_iff,
        MergeOptions.SettlesWhole, hPolicy]
  | objects as bs hRecursive ih =>
      rcases Value.hasDistinctKeys_object_iff.mp hDistinct
        with ⟨hNodup, hValues⟩
      rw [mergeEntry_objects hRecursive, clash?_map,
        clash?_mergeFields,
        find?_paths_of_entries hRecursive,
        find?_paths_of_objects]
      refine clash?_mergeShared bs hNodup ?_
      intro key a b hA hB
      exact ih key a b hA hB (hValues _ hA)

end Transclusion

------------------------------------------------------------
-- Operands
------------------------------------------------------------

namespace Transclusion

variable {options : MergeOptions}

/- Operands that stand for no objects only settle. -/
theorem merge_of_operandsMeet
    {first second : Value}
    (hMeet : OperandsMeet first second) :
    merge options first second =
      settle options.keyPolicy first second := by
  unfold merge
  split
  · cases hMeet.1 ⟨rfl, rfl⟩
  · cases hMeet.2.1 ⟨rfl, rfl⟩
  · cases hMeet.2.2 ⟨rfl, rfl⟩
  · rfl

/- Operands merge where a null stands for an object. -/
theorem exists_merge_of_not_operandsMeet
    {first second : Value}
    (hObjects :
      ¬ (first.kind = .object ∧ second.kind = .object))
    (hMeet : ¬ OperandsMeet first second) :
    ∃ merged, merge options first second = .ok merged := by
  have hNull :
      (first = .null ∧ second.kind = .object) ∨
        (first.kind = .object ∧ second = .null) := by
    grind [OperandsMeet]
  rcases hNull with ⟨rfl, hKind⟩ | ⟨hKind, rfl⟩
  · rcases Value.kind_eq_object_iff.mp hKind with ⟨bs, rfl⟩
    exact ⟨.object bs, rfl⟩
  · rcases Value.kind_eq_object_iff.mp hKind with ⟨as, rfl⟩
    exact ⟨.object as, rfl⟩

/-
  Operands clash at the first path where they do, depth
  first.
-/
theorem clash?_merge
    {first : Value}
    (second : Value)
    (hStrict : options.keyPolicy = .error)
    (hDistinct : first.hasDistinctKeys = true) :
    clash? (merge options first second) =
      first.paths.find? fun path =>
        ClashesAt options first second path := by
  by_cases hObjects :
      first.kind = .object ∧ second.kind = .object
  · rcases Value.kind_eq_object_iff.mp hObjects.1 with
      ⟨as, rfl⟩
    rcases Value.kind_eq_object_iff.mp hObjects.2 with
      ⟨bs, rfl⟩
    rcases Value.hasDistinctKeys_object_iff.mp hDistinct
      with ⟨hNodup, hValues⟩
    rw [merge, clash?_map, clash?_mergeFields,
      find?_paths_of_objects]
    refine clash?_mergeShared bs hNodup ?_
    intro key a b hA _hB
    exact clash?_mergeEntry b hStrict (hValues _ hA)
  rw [Value.find?_paths_of_not_cons first
    fun key rest => not_clashesAt_cons hObjects]
  by_cases hMeet : OperandsMeet first second
  · rw [merge_of_operandsMeet hMeet, hStrict, clash?_settle]
    cases hSame : first.same second <;>
      simp [clashesAt_nil_iff, hMeet, hSame]
  · rcases exists_merge_of_not_operandsMeet hObjects hMeet
      with ⟨merged, hOk⟩
    rw [hOk]
    simp [clash?, clashesAt_nil_iff, hMeet]

/-
  A merge ends in a conflict exactly if its policy for keys
  is the one for errors and the path of the conflict is the
  first one where the operands clash.
-/
theorem merge_eq_error_iff
    {first second : Value}
    {clash : MergeConflict}
    (hDistinct : first.hasDistinctKeys = true) :
    merge options first second = .error clash ↔
      options.keyPolicy = .error ∧
        (first.paths.find? fun path =>
            ClashesAt options first second path) =
          some clash.path := by
  by_cases hStrict : options.keyPolicy = .error
  · rw [← clash?_merge second hStrict hDistinct,
      clash?_eq_some_iff]
    simp [hStrict]
  · have hNone :=
      merge_ne_error hStrict first second clash
    simp [hStrict, hNone]

/-
  A merge is in conflict exactly if its policy for keys is
  the one for errors and different values meet somewhere.
  The path that it names is the first such path of the first
  operand, depth first, with dots between its keys.
-/
theorem merge_conflict
    (options : MergeOptions)
    {first : Value}
    (second : Value)
    (hDistinct : first.hasDistinctKeys = true) :
    ((∃ clash, merge options first second = .error clash) ↔
        options.keyPolicy = .error ∧
          ∃ path, ClashesAt options first second path) ∧
      ∀ clash, merge options first second = .error clash →
        (first.paths.find? fun path =>
            ClashesAt options first second path) =
          some clash.path ∧
        (clash.path = [] → clash.pathText = "<root>") ∧
        (clash.path ≠ [] →
          clash.pathText = ".".intercalate clash.path) := by
  simp only [merge_eq_error_iff hDistinct]
  refine ⟨⟨?_, ?_⟩, ?_⟩
  · rintro ⟨clash, hStrict, hFind⟩
    have hClash := List.find?_some hFind
    exact ⟨hStrict, clash.path, of_decide_eq_true hClash⟩
  · rintro ⟨hStrict, path, hClash⟩
    have hMem : path ∈ first.paths := by
      rcases hClash with ⟨a, b, hMeet, _hDiffer⟩
      exact
        (Value.mem_paths_iff hDistinct).mpr
          ⟨a, hMeet.left⟩
    have hSome :
        (first.paths.find? fun path =>
            ClashesAt options first second path).isSome =
          true :=
      List.find?_isSome.mpr
        ⟨path, hMem, decide_eq_true hClash⟩
    rcases Option.isSome_iff_exists.mp hSome with
      ⟨named, hFind⟩
    exact ⟨⟨named⟩, hStrict, hFind⟩
  · rintro clash ⟨_hStrict, hFind⟩
    refine ⟨hFind, ?_, ?_⟩
    · intro hRoot
      rw [MergeConflict.pathText, hRoot]
    · intro hKeys
      rw [MergeConflict.pathText]
      split
      · contradiction
      · rfl

/- A pool with its limits. -/
def limitedFields : Fields :=
  [("pool",
      .object
        [("hosts", .array [.string "a"]), ("owner", .null),
          ("limits",
            .object
              [("kind", .object [("x", .null), ("y", .null)]),
                ("min", .bool true), ("max", .bool true)])]),
    ("name", .string "base")]

/- The pool of another place. -/
def otherLimitedFields : Fields :=
  [("name", .string "other"),
    ("pool",
      .object
        [("limits",
            .object
              [("max", .string "many"), ("min", .bool false),
                ("kind",
                  .object [("y", .null), ("x", .null)])]),
          ("hosts", .array [.string "b"])])]

/-
  The arrays are put together, the kinds are the same, and
  of three conflicts the first one in the first pool is
  named.
-/
theorem merge_conflict_pools :
    let options : MergeOptions := { keyPolicy := .error }
    let first := Value.object limitedFields
    let second := Value.object otherLimitedFields
    let clash : MergeConflict := ⟨["pool", "limits", "min"]⟩
    first.hasDistinctKeys = true ∧
      merge options first second = .error clash ∧
      (first.paths.find? fun path =>
          ClashesAt options first second path) =
        some ["pool", "limits", "min"] ∧
      clash.pathText = "pool.limits.min" := by
  intro options first second clash
  have hDistinct : first.hasDistinctKeys = true := by
    decide +kernel
  have hClash :
      merge options first second = .error clash := by
    decide +kernel
  have hNamed :=
    (merge_conflict options second hDistinct).2 clash hClash
  exact
    ⟨hDistinct, hClash, hNamed.1,
      (hNamed.2.2 (by decide)).trans (by decide +kernel)⟩

end Transclusion
