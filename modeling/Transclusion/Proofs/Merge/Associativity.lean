import Transclusion.Proofs.Merge.Fields
import Transclusion.Proofs.Value.Same

/-
  Merges of three values in either grouping.

  Key definitions include:
    * `Transclusion.Value.compatible`
    * `Transclusion.Associates`

  Key theorems include:
    * `Transclusion.Value.compatible_of_mergeFields`
    * `Transclusion.settle_associates`
    * `Transclusion.mergeFields_associates`
    * `Transclusion.merge_assoc`

  Compatible values have the same kind wherever they meet.
  Without that, a plain value may stand between two objects
  and cut off what the first of them holds, or not, as the
  grouping goes.
-/

------------------------------------------------------------
-- Compatible Values
------------------------------------------------------------

namespace Transclusion

namespace Value

mutual

/-
  Whether two values have the same kind, and so have the
  values under every key that two objects share.
-/
def compatible : Value → Value → Bool
  | .object as, .object bs => compatibleFields as bs
  | a, b => decide (a.kind = b.kind)

/- Whether fields of one key have compatible values. -/
def compatibleFields :
    List (String × Value) → List (String × Value) → Bool
  | [], _ => true
  | (key, a) :: as, bs =>
      bs.all
          (fun field =>
            field.1 != key || compatible a field.2) &&
        compatibleFields as bs

end

/- Objects are compatible under every key they share. -/
theorem compatible_object_iff
    {as bs : Fields} :
    (Value.object as).compatible (.object bs) = true ↔
      ∀ key a b, (key, a) ∈ as → (key, b) ∈ bs →
        a.compatible b = true := by
  rw [compatible]
  induction as with
  | nil => simp [compatibleFields]
  | cons field rest ih =>
      obtain ⟨key, a⟩ := field
      rw [compatibleFields, Bool.and_eq_true, ih,
        List.all_eq_true]
      constructor
      · rintro ⟨hFirst, hRest⟩ other a' b hA hB
        rcases List.mem_cons.mp hA with hHead | hTail
        · cases hHead
          simpa using hFirst _ hB
        · exact hRest other a' b hTail hB
      · intro hFields
        constructor
        · rintro ⟨other, b⟩ hB
          by_cases hKey : other = key
          · subst hKey
            have hCompatible :=
              hFields other a b List.mem_cons_self hB
            simp [hCompatible]
          · simp [hKey]
        · intro other a' b hA hB
          exact
            hFields other a' b
              (List.mem_cons_of_mem _ hA) hB

/- Other values are compatible if their kinds are equal. -/
theorem compatible_iff_kind_eq
    {a b : Value}
    (hKind : a.kind ≠ .object) :
    a.compatible b = true ↔ a.kind = b.kind := by
  cases a <;> cases b <;> simp_all [compatible, kind]

/- Compatible values have the same kind. -/
theorem kind_eq_of_compatible
    {a b : Value}
    (hCompatible : a.compatible b = true) :
    a.kind = b.kind := by
  cases a <;> cases b <;> simp_all [compatible, kind]

/- Compatibility has no direction. -/
theorem compatible_symm
    {a b : Value}
    (hCompatible : a.compatible b = true) :
    b.compatible a = true := by
  have hKind := kind_eq_of_compatible hCompatible
  induction a using Value.induction generalizing b with
  | plain a hPlain =>
      rw [compatible_iff_kind_eq (by simp [← hKind, hPlain])]
      exact hKind.symm
  | array as ih =>
      rw [compatible_iff_kind_eq (by simp [← hKind])]
      exact hKind.symm
  | object as ih =>
      rcases kind_eq_object_iff.mp hKind.symm with ⟨bs, rfl⟩
      rw [compatible_object_iff] at hCompatible ⊢
      intro key b a hB hA
      have hBelow := hCompatible key a b hA hB
      exact
        ih _ hA hBelow (kind_eq_of_compatible hBelow)

/- With distinct keys, a value is compatible with itself. -/
theorem compatible_refl
    {a : Value}
    (hDistinct : a.hasDistinctKeys = true) :
    a.compatible a = true := by
  induction a using Value.induction with
  | plain a hPlain =>
      rw [compatible_iff_kind_eq (by simp [hPlain])]
  | array as ih =>
      rw [compatible_iff_kind_eq (by simp)]
  | object as ih =>
      rcases hasDistinctKeys_object_iff.mp hDistinct with
        ⟨hNodup, hValues⟩
      rw [compatible_object_iff]
      intro key a b hA hB
      have hBoth :=
        (Fields.get?_eq_some_of_mem hNodup hA).symm.trans
          (Fields.get?_eq_some_of_mem hNodup hB)
      rw [← Option.some.inj hBoth]
      exact ih _ hA (hValues _ hA)

end Value

end Transclusion

------------------------------------------------------------
-- Merges of Compatible Values
------------------------------------------------------------

namespace Transclusion

namespace Value

variable {options : MergeOptions}

/-
  What is compatible with two objects is compatible with
  their merge, if that is so of the values of the first.
-/
theorem compatible_of_mergeFields_of_forall
    {first second merged fields : Fields}
    (hFirst :
      (Value.object first).compatible (.object fields) =
        true)
    (hSecond :
      (Value.object second).compatible (.object fields) =
        true)
    (hOk : mergeFields options first second = .ok merged)
    (hEntries :
      ∀ field ∈ first, ∀ b value c,
        field.2.compatible c = true →
          b.compatible c = true →
            mergeEntry options field.2 b = .ok value →
              value.compatible c = true) :
    (Value.object merged).compatible (.object fields) =
      true := by
  rw [compatible_object_iff] at hFirst hSecond ⊢
  intro key value c hValue hC
  rcases mem_mergeFields_cases hOk hValue with
    hMem | hMem | ⟨a, b, hA, hB, hEntry⟩
  · exact hFirst key value c hMem hC
  · exact hSecond key value c hMem hC
  · exact
      hEntries _ hA b value c (hFirst key a c hA hC)
        (hSecond key b c hB hC) hEntry

/- What is compatible with two values is so with their merge. -/
theorem compatible_of_mergeEntry
    {first second merged other : Value}
    (hFirst : first.compatible other = true)
    (hSecond : second.compatible other = true)
    (hOk : mergeEntry options first second = .ok merged) :
    merged.compatible other = true := by
  induction first using Value.induction generalizing
      second merged other with
  | plain first hPlain =>
      rcases mergeEntry_eq_ok_cases hOk with
        rfl | rfl | ⟨as, bs, rfl, _hArrays⟩ |
        ⟨as, bs, fields, rfl, _hObjects⟩
      · exact hFirst
      · exact hSecond
      · cases hPlain
      · cases hPlain
  | array as ih =>
      rcases mergeEntry_eq_ok_cases hOk with
        rfl | rfl | ⟨_, bs, _hAs, rfl, hAppended⟩ |
        ⟨_, bs, fields, hEq, _hObjects⟩
      · exact hFirst
      · exact hSecond
      · have hKind := kind_eq_of_compatible hFirst
        rcases hAppended with rfl | rfl <;>
          rw [compatible_iff_kind_eq (by simp)] <;>
            exact hKind
      · cases hEq
  | object as ih =>
      rcases mergeEntry_eq_ok_cases hOk with
        rfl | rfl | ⟨_, bs, hEq, _hArrays⟩ |
        ⟨_, bs, fields, hEq, rfl, rfl, _hRecursive, hFields⟩
      · exact hFirst
      · exact hSecond
      · cases hEq
      · cases hEq
        rcases kind_eq_object_iff.mp
            (kind_eq_of_compatible hFirst).symm with
          ⟨cs, rfl⟩
        exact
          compatible_of_mergeFields_of_forall hFirst hSecond
            hFields fun field hField _ _ _ hA hB hEntry =>
              ih field hField hA hB hEntry

/- What is compatible with two objects is so with their merge. -/
theorem compatible_of_mergeFields
    {first second merged fields : Fields}
    (hFirst :
      (Value.object first).compatible (.object fields) =
        true)
    (hSecond :
      (Value.object second).compatible (.object fields) =
        true)
    (hOk : mergeFields options first second = .ok merged) :
    (Value.object merged).compatible (.object fields) =
      true :=
  compatible_of_mergeFields_of_forall hFirst hSecond hOk
    fun _ _ _ _ _ hA hB hEntry =>
      compatible_of_mergeEntry hA hB hEntry

end Value

end Transclusion

------------------------------------------------------------
-- Groupings
------------------------------------------------------------

namespace Transclusion

/-
  An operation that may fail associates three operands if
  both groupings succeed on the same terms and come to the
  same result.
-/
def Associates
    {ε α : Type}
    (op : α → α → Except ε α)
    (a b c : α) : Prop :=
  ∀ result,
    (∃ first, op a b = .ok first ∧
        op first c = .ok result) ↔
      ∃ second, op b c = .ok second ∧
        op a second = .ok result

/- What associates operands associates them as they stand inside. -/
theorem Associates.of_map
    {ε α β : Type}
    {op : α → α → Except ε α}
    {outer : β → β → Except ε β}
    {f : α → β}
    {a b c : α}
    (hOuter :
      ∀ x y, outer (f x) (f y) = (op x y).map f)
    (hInner : Associates op a b c) :
    Associates outer (f a) (f b) (f c) := by
  have hMap :
      ∀ x y result,
        outer (f x) (f y) = .ok result ↔
          ∃ inner, op x y = .ok inner ∧
            f inner = result := by
    intro x y result
    rw [hOuter]
    cases op x y <;> simp [Except.map]
  intro result
  constructor
  · rintro ⟨_, hFirst, hResult⟩
    rcases (hMap _ _ _).mp hFirst with ⟨first, hAB, rfl⟩
    rcases (hMap _ _ _).mp hResult with
      ⟨inner, hABC, rfl⟩
    rcases (hInner inner).mp ⟨first, hAB, hABC⟩ with
      ⟨second, hBC, hABC'⟩
    exact
      ⟨f second, (hMap _ _ _).mpr ⟨second, hBC, rfl⟩,
        (hMap _ _ _).mpr ⟨inner, hABC', rfl⟩⟩
  · rintro ⟨_, hSecond, hResult⟩
    rcases (hMap _ _ _).mp hSecond with ⟨second, hBC, rfl⟩
    rcases (hMap _ _ _).mp hResult with
      ⟨inner, hABC, rfl⟩
    rcases (hInner inner).mpr ⟨second, hBC, hABC⟩ with
      ⟨first, hAB, hABC'⟩
    exact
      ⟨f first, (hMap _ _ _).mpr ⟨first, hAB, rfl⟩,
        (hMap _ _ _).mpr ⟨inner, hABC', rfl⟩⟩

end Transclusion

------------------------------------------------------------
-- Groupings of Values
------------------------------------------------------------

namespace Transclusion

variable {options : MergeOptions}
variable {a b c : Value}

/-
  Three values settle in either grouping.  The policy for
  errors keeps the first of three that are all the same.
-/
theorem settle_associates
    (policy : KeyPolicy)
    (hA : a.hasDistinctKeys = true)
    (hB : b.hasDistinctKeys = true) :
    Associates (settle policy) a b c := by
  have hError :
      ∀ x y result : Value,
        settle .error x y = .ok result ↔
          x.same y = true ∧ x = result := by
    intro x y result
    rw [settle]
    split <;> simp_all
  intro result
  cases policy with
  | first => simp [settle]
  | second => simp [settle]
  | error =>
      simp only [hError]
      constructor
      · rintro ⟨_, ⟨hAB, rfl⟩, hAC, rfl⟩
        have hBA := Value.same_symm hA hB hAB
        exact
          ⟨b, ⟨Value.same_trans hBA hAC, rfl⟩, hAB, rfl⟩
      · rintro ⟨_, ⟨hBC, rfl⟩, hAB, rfl⟩
        exact
          ⟨a, ⟨hAB, rfl⟩, Value.same_trans hAB hBC, rfl⟩

/- An operation associates values that it only settles. -/
theorem associates_of_settle
    {op : Value → Value → Except MergeConflict Value}
    (policy : KeyPolicy)
    (hA : a.hasDistinctKeys = true)
    (hB : b.hasDistinctKeys = true)
    (hOp :
      ∀ x ∈ [a, b, c], ∀ y ∈ [a, b, c],
        op x y = settle policy x y) :
    Associates op a b c := by
  have hKept :
      ∀ x ∈ [a, b, c], ∀ y ∈ [a, b, c], ∀ kept,
        settle policy x y = .ok kept → kept ∈ [a, b, c] := by
    intro x hX y hY kept hOk
    rcases settle_eq_ok_cases hOk with rfl | rfl
    · exact hX
    · exact hY
  have hFirst :
      ∀ result,
        (∃ first, op a b = .ok first ∧
            op first c = .ok result) ↔
          ∃ first, settle policy a b = .ok first ∧
            settle policy first c = .ok result := by
    intro result
    rw [hOp a (by simp) b (by simp)]
    refine exists_congr fun first =>
      and_congr_right fun hOk => ?_
    rw [hOp first (hKept a (by simp) b (by simp) _ hOk) c
      (by simp)]
  have hSecond :
      ∀ result,
        (∃ second, op b c = .ok second ∧
            op a second = .ok result) ↔
          ∃ second, settle policy b c = .ok second ∧
            settle policy a second = .ok result := by
    intro result
    rw [hOp b (by simp) c (by simp)]
    refine exists_congr fun second =>
      and_congr_right fun hOk => ?_
    rw [hOp a (by simp) second
      (hKept b (by simp) c (by simp) _ hOk)]
  intro result
  rw [hFirst, hSecond]
  exact settle_associates policy hA hB result

/- Three arrays under one key merge in either grouping. -/
theorem mergeEntry_associates_of_arrays
    {as bs cs : List Value}
    (hA : (Value.array as).hasDistinctKeys = true)
    (hB : (Value.array bs).hasDistinctKeys = true) :
    Associates (mergeEntry options) (.array as) (.array bs)
      (.array cs) := by
  cases hPolicy : options.arrayPolicy with
  | byKey =>
      refine
        associates_of_settle options.keyPolicy hA hB ?_
      simp [mergeArrays, hPolicy]
  | _ =>
      intro result
      simp [mergeArrays, hPolicy]

end Transclusion

------------------------------------------------------------
-- Groupings of Objects
------------------------------------------------------------

namespace Transclusion

variable {options : MergeOptions}

/-
  Under one key, only three values that are all there need
  to associate.
-/
theorem mergeAt_associates
    {a b c : Option Value}
    (hAll :
      ∀ x y z, a = some x → b = some y → c = some z →
        Associates (mergeEntry options) x y z) :
    Associates (mergeAt options) a b c := by
  intro result
  cases a with
  | none => simp
  | some x =>
      cases b with
      | none => simp
      | some y =>
          cases c with
          | none => simp
          | some z =>
              have hThere :
                  Associates (mergeAt options) (some x)
                    (some y) (some z) :=
                (hAll x y z rfl rfl rfl).of_map
                  fun _ _ => rfl
              exact hThere result

/-
  Objects with distinct keys merge in either grouping if
  what they have under each key does.
-/
theorem mergeFields_associates_of_forall
    {as bs cs : Fields}
    (hA : (Fields.keys as).Nodup)
    (hB : (Fields.keys bs).Nodup)
    (hC : (Fields.keys cs).Nodup)
    (hKeys :
      ∀ key,
        Associates (mergeAt options) (Fields.get? as key)
          (Fields.get? bs key) (Fields.get? cs key)) :
    Associates (mergeFields options) as bs cs := by
  intro result
  constructor
  · rintro ⟨first, hFirst, hResult⟩
    have hFirst' := mergeAt_of_mergeFields hFirst
    have hResult' := mergeAt_of_mergeFields hResult
    rcases exists_mergeFields_forall hB
        (fun key =>
          (hKeys key _).mp ⟨_, hFirst' key, hResult' key⟩)
      with ⟨second, hSecond, hGet⟩
    have hNodup : (Fields.keys second).Nodup := by
      rw [keys_of_mergeFields hSecond]
      exact nodup_mergedKeys hB hC
    refine
      ⟨second, hSecond,
        (mergeFields_eq_ok_iff hA hNodup).mpr ⟨?_, hGet⟩⟩
    rw [keys_of_mergeFields hResult,
      keys_of_mergeFields hFirst,
      keys_of_mergeFields hSecond, mergedKeys_assoc]
  · rintro ⟨second, hSecond, hResult⟩
    have hSecond' := mergeAt_of_mergeFields hSecond
    have hResult' := mergeAt_of_mergeFields hResult
    rcases exists_mergeFields_forall hA
        (fun key =>
          (hKeys key _).mpr ⟨_, hSecond' key, hResult' key⟩)
      with ⟨first, hFirst, hGet⟩
    have hNodup : (Fields.keys first).Nodup := by
      rw [keys_of_mergeFields hFirst]
      exact nodup_mergedKeys hA hB
    refine
      ⟨first, hFirst,
        (mergeFields_eq_ok_iff hNodup hC).mpr ⟨?_, hGet⟩⟩
    rw [keys_of_mergeFields hResult,
      keys_of_mergeFields hSecond,
      keys_of_mergeFields hFirst, mergedKeys_assoc]

/-
  Compatible objects with distinct keys merge in either
  grouping, if that is so of the values of the first.
-/
theorem mergeFields_associates_of_entries
    {as bs cs : Fields}
    (hA : (Value.object as).hasDistinctKeys = true)
    (hB : (Value.object bs).hasDistinctKeys = true)
    (hC : (Value.object cs).hasDistinctKeys = true)
    (hAB :
      (Value.object as).compatible (.object bs) = true)
    (hBC :
      (Value.object bs).compatible (.object cs) = true)
    (hEntries :
      ∀ field ∈ as, ∀ b c,
        b.hasDistinctKeys = true →
          c.hasDistinctKeys = true →
            field.2.compatible b = true →
              b.compatible c = true →
                Associates (mergeEntry options) field.2 b
                  c) :
    Associates (mergeFields options) as bs cs := by
  rw [Value.hasDistinctKeys_object_iff] at hA hB hC
  rw [Value.compatible_object_iff] at hAB hBC
  refine
    mergeFields_associates_of_forall hA.1 hB.1 hC.1 ?_
  intro key
  refine mergeAt_associates ?_
  intro a b c hGetA hGetB hGetC
  have hMemA := Fields.mem_of_get?_eq_some hGetA
  have hMemB := Fields.mem_of_get?_eq_some hGetB
  have hMemC := Fields.mem_of_get?_eq_some hGetC
  exact
    hEntries _ hMemA b c (hB.2 _ hMemB) (hC.2 _ hMemC)
      (hAB key a b hMemA hMemB) (hBC key b c hMemB hMemC)

/- Compatible values of one key merge in either grouping. -/
theorem mergeEntry_associates
    {a b c : Value}
    (hA : a.hasDistinctKeys = true)
    (hB : b.hasDistinctKeys = true)
    (hC : c.hasDistinctKeys = true)
    (hAB : a.compatible b = true)
    (hBC : b.compatible c = true) :
    Associates (mergeEntry options) a b c := by
  have hKindB := Value.kind_eq_of_compatible hAB
  have hKindC := Value.kind_eq_of_compatible hBC
  induction a using Value.induction generalizing b c with
  | plain a hPlain =>
      refine
        associates_of_settle options.keyPolicy hA hB ?_
      have hKinds :
          ∀ x ∈ [a, b, c], x.kind = .plain := by
        simp [← hKindC, ← hKindB, hPlain]
      intro x hX y _hY
      have hKind := hKinds x hX
      exact
        mergeEntry_of_kind_ne (by simp [hKind])
          (by simp [hKind])
  | array as ih =>
      rcases Value.kind_eq_array_iff.mp hKindB.symm with
        ⟨bs, rfl⟩
      rcases Value.kind_eq_array_iff.mp hKindC.symm with
        ⟨cs, rfl⟩
      exact mergeEntry_associates_of_arrays hA hB
  | object as ih =>
      rcases Value.kind_eq_object_iff.mp hKindB.symm with
        ⟨bs, rfl⟩
      rcases Value.kind_eq_object_iff.mp hKindC.symm with
        ⟨cs, rfl⟩
      by_cases hRecursive : options.recursive = true
      · have hFields :
            Associates (mergeFields options) as bs cs := by
          refine
            mergeFields_associates_of_entries hA hB hC hAB
              hBC ?_
          intro field hField b c hB hC hAB hBC
          have hValues :=
            (Value.hasDistinctKeys_object_iff.mp hA).2
          exact
            ih field hField (hValues field hField) hB hC
              hAB hBC (Value.kind_eq_of_compatible hAB)
              (Value.kind_eq_of_compatible hBC)
        exact hFields.of_map (mergeEntry_objects hRecursive)
      · refine
          associates_of_settle options.keyPolicy hA hB ?_
        simp [mergeEntry_wholes hRecursive]

/- Compatible objects merge in either grouping. -/
theorem mergeFields_associates
    {as bs cs : Fields}
    (hA : (Value.object as).hasDistinctKeys = true)
    (hB : (Value.object bs).hasDistinctKeys = true)
    (hC : (Value.object cs).hasDistinctKeys = true)
    (hAB :
      (Value.object as).compatible (.object bs) = true)
    (hBC :
      (Value.object bs).compatible (.object cs) = true) :
    Associates (mergeFields options) as bs cs := by
  have hValues :=
    (Value.hasDistinctKeys_object_iff.mp hA).2
  refine
    mergeFields_associates_of_entries hA hB hC hAB hBC ?_
  intro field hField b c hB hC hAB hBC
  exact
    mergeEntry_associates (hValues field hField) hB hC hAB
      hBC

end Transclusion

------------------------------------------------------------
-- Groupings of Merges
------------------------------------------------------------

namespace Transclusion

/-
  Under every policy, three objects of which the second is
  compatible with both others merge in either grouping.
  What the first and the third hold under a key that the
  second lacks meets only once, so it may be of any kind.
-/
theorem merge_assoc
    (options : MergeOptions)
    {a b c : Fields}
    (hA : (Value.object a).hasDistinctKeys = true)
    (hB : (Value.object b).hasDistinctKeys = true)
    (hC : (Value.object c).hasDistinctKeys = true)
    (hAB : (Value.object a).compatible (.object b) = true)
    (hBC : (Value.object b).compatible (.object c) = true) :
    Associates (merge options) (.object a) (.object b)
      (.object c) :=
  (mergeFields_associates hA hB hC hAB hBC).of_map
    fun _ _ => rfl

/- Settings of all places. -/
def generalSettings : Fields :=
  [("factor", .number (.double (.zero false))),
    ("log",
      .object
        [("level", .string "info"),
          ("files", .array [.string "general"])])]

/- Settings of a region. -/
def regionSettings : Fields :=
  [("log",
      .object
        [("files", .array [.string "region"]),
          ("limits", .object [("lines", .string "many")])]),
    ("factor", .number (.double (.zero true)))]

/- Settings of a host. -/
def hostSettings : Fields :=
  [("host", .string "a"),
    ("factor", .number (.double (.zero true))),
    ("log",
      .object
        [("level", .string "info"),
          ("limits", .object [("days", .string "few")]),
          ("files", .array [.string "host"])])]

/- Settings of the host with those of its region and of all. -/
def mergedSettings : Fields :=
  [("factor", .number (.double (.zero false))),
    ("log",
      .object
        [("level", .string "info"),
          ("files",
            .array
              [.string "host", .string "region",
                .string "general"]),
          ("limits",
            .object
              [("lines", .string "many"),
                ("days", .string "few")])]),
    ("host", .string "a")]

/-
  Settings associate under the policy for errors, which
  keeps the zero of the first.
-/
theorem merge_assoc_settings :
    let options : MergeOptions :=
      { keyPolicy := .error, arrayPolicy := .appendFirst }
    (Value.object generalSettings).hasDistinctKeys = true ∧
      (Value.object regionSettings).hasDistinctKeys =
          true ∧
        (Value.object hostSettings).hasDistinctKeys =
            true ∧
          (Value.object generalSettings).compatible
                (.object regionSettings) =
              true ∧
            (Value.object regionSettings).compatible
                  (.object hostSettings) =
                true ∧
              Associates (merge options)
                  (.object generalSettings)
                  (.object regionSettings)
                  (.object hostSettings) ∧
                ([.object regionSettings,
                    .object hostSettings].foldlM
                    (merge options)
                    (.object generalSettings)) =
                  .ok (.object mergedSettings) := by
  intro options
  have hGeneral :
      (Value.object generalSettings).hasDistinctKeys =
        true := by
    decide +kernel
  have hRegion :
      (Value.object regionSettings).hasDistinctKeys =
        true := by
    decide +kernel
  have hHost :
      (Value.object hostSettings).hasDistinctKeys =
        true := by
    decide +kernel
  have hFirst :
      (Value.object generalSettings).compatible
          (.object regionSettings) =
        true := by
    decide +kernel
  have hSecond :
      (Value.object regionSettings).compatible
          (.object hostSettings) =
        true := by
    decide +kernel
  exact
    ⟨hGeneral, hRegion, hHost, hFirst, hSecond,
      merge_assoc options hGeneral hRegion hHost hFirst
        hSecond,
      by decide +kernel⟩

end Transclusion
