import Mathlib.Data.List.Duplicate
import Transclusion.Proofs.Value.Fields
import Transclusion.Yaml.Node.Node

/-
  The values of trees, from those of the trees inside them.

  Key theorems include:
    * `Transclusion.Yaml.Node.induction`
    * `Transclusion.Yaml.Node.toItems_eq_ok_iff`
    * `Transclusion.Yaml.Node.toFields_eq_ok_iff`
    * `Transclusion.Yaml.Node.keyText_eq_error_iff`
    * `Transclusion.Yaml.Node.toFields_eq_error`

  A sequence has a value if its items do.  A mapping has one
  if its keys have texts, all of them different, and its
  values have values; if it has none, that is because of a
  tree inside it or because of a key that it has twice.
-/

------------------------------------------------------------
-- Induction
------------------------------------------------------------

namespace Transclusion

namespace Yaml

namespace Node

/-
  What holds of every scalar, and of any other tree if it
  holds of the trees in it, holds of every tree.
-/
@[elab_as_elim]
theorem induction
    {motive : Node → Prop}
    (null : motive .null)
    (bool : ∀ b, motive (.bool b))
    (number : ∀ n, motive (.number n))
    (string : ∀ s, motive (.string s))
    (sequence :
      ∀ items,
        (∀ item ∈ items, motive item) →
          motive (.sequence items))
    (mapping :
      ∀ entries,
        (∀ entry ∈ entries,
          motive entry.1 ∧ motive entry.2) →
          motive (.mapping entries))
    (tagged :
      ∀ tag node, motive node → motive (.tagged tag node))
    (node : Node) : motive node := by
  refine
    @Node.rec motive
      (fun items => ∀ item ∈ items, motive item)
      (fun entries =>
        ∀ entry ∈ entries, motive entry.1 ∧ motive entry.2)
      (fun entry => motive entry.1 ∧ motive entry.2)
      null bool number string sequence mapping tagged
      ?noItems ?items ?noEntries ?entries ?entry node
  case noItems => simp
  case items =>
    intro item rest hItem hRest
    exact List.forall_mem_cons.mpr ⟨hItem, hRest⟩
  case noEntries => simp
  case entries =>
    intro entry rest hEntry hRest
    exact List.forall_mem_cons.mpr ⟨hEntry, hRest⟩
  case entry =>
    intro key value hKey hValue
    exact ⟨hKey, hValue⟩

end Node

end Yaml

end Transclusion

------------------------------------------------------------
-- Sequences
------------------------------------------------------------

namespace Transclusion

namespace Yaml

namespace Node

/- A sequence has a value if its list of trees has values. -/
theorem toValue_sequence_eq_ok_iff
    {nodes : List Node}
    {value : Value} :
    (Node.sequence nodes).toValue = .ok value ↔
      ∃ items,
        toItems nodes = .ok items ∧ .array items = value := by
  rw [toValue]
  cases toItems nodes <;> simp [Except.map]

/- It has none because of its list of trees. -/
theorem toValue_sequence_eq_error_iff
    {nodes : List Node}
    {collision : KeyCollision} :
    (Node.sequence nodes).toValue = .error collision ↔
      toItems nodes = .error collision := by
  rw [toValue]
  cases toItems nodes <;> simp [Except.map]

/- The values of a list are those of its trees, in order. -/
theorem toItems_eq_ok_iff
    {nodes : List Node}
    {items : List Value} :
    toItems nodes = .ok items ↔
      List.Forall₂
        (fun node item => node.toValue = .ok item)
        nodes items := by
  induction nodes generalizing items with
  | nil => simp [toItems, eq_comm]
  | cons node rest ih =>
      rw [toItems, List.forall₂_cons_left_iff]
      simp only [← ih]
      cases node.toValue with
      | error collision => simp [bind, Except.bind]
      | ok value =>
          cases toItems rest <;>
            simp [bind, Except.bind, pure, Except.pure,
              eq_comm]

end Node

end Yaml

end Transclusion

------------------------------------------------------------
-- Mappings
------------------------------------------------------------

namespace Transclusion

namespace Yaml

namespace Node

variable {seen : List String}
variable {key node : Node}
variable {rest : List (Node × Node)}

/- A mapping has a value if its entries have fields. -/
theorem toValue_mapping_eq_ok_iff
    {entries : List (Node × Node)}
    {value : Value} :
    (Node.mapping entries).toValue = .ok value ↔
      ∃ fields,
        toFields [] entries = .ok fields ∧
          .object fields = value := by
  rw [toValue]
  cases toFields [] entries <;> simp [Except.map]

/- It has none because of its entries. -/
theorem toValue_mapping_eq_error_iff
    {entries : List (Node × Node)}
    {collision : KeyCollision} :
    (Node.mapping entries).toValue = .error collision ↔
      toFields [] entries = .error collision := by
  rw [toValue]
  cases toFields [] entries <;> simp [Except.map]

/- The first field of a mapping is new, and so are the rest. -/
theorem toFields_cons_eq_ok_iff
    {fields : Fields} :
    toFields seen ((key, node) :: rest) = .ok fields ↔
      ∃ name value more,
        key.keyText = .ok name ∧ node.toValue = .ok value ∧
          name ∉ seen ∧
            toFields (name :: seen) rest = .ok more ∧
              (name, value) :: more = fields := by
  rw [toFields]
  cases key.keyText with
  | error collision => simp [bind, Except.bind]
  | ok name =>
      cases node.toValue with
      | error collision => simp [bind, Except.bind]
      | ok value =>
          by_cases hSeen : name ∈ seen
          · simp [bind, Except.bind, hSeen, throw,
              throwThe, MonadExceptOf.throw]
          · cases hMore : toFields (name :: seen) rest <;>
              simp [bind, Except.bind, pure, Except.pure,
                hSeen, hMore]

/-
  A mapping has no value because of its first entry, or
  because of the rest behind that one.
-/
theorem toFields_cons_eq_error_iff
    {collision : KeyCollision} :
    toFields seen ((key, node) :: rest) =
        .error collision ↔
      key.keyText = .error collision ∨
        ∃ name, key.keyText = .ok name ∧
          (node.toValue = .error collision ∨
            ∃ value, node.toValue = .ok value ∧
              (name ∈ seen ∧ collision = ⟨name⟩ ∨
                name ∉ seen ∧
                  toFields (name :: seen) rest =
                    .error collision)) := by
  rw [toFields]
  cases key.keyText with
  | error found => simp [bind, Except.bind]
  | ok name =>
      cases node.toValue with
      | error found => simp [bind, Except.bind]
      | ok value =>
          by_cases hSeen : name ∈ seen
          · simp [bind, Except.bind, hSeen, throw,
              throwThe, MonadExceptOf.throw, eq_comm]
          · cases hMore : toFields (name :: seen) rest <;>
              simp [bind, Except.bind, pure, Except.pure,
                hSeen, hMore]

/-
  The fields of a mapping are the texts and the values of
  its entries, in order, if the texts are different and new.
-/
theorem toFields_eq_ok_iff
    {entries : List (Node × Node)}
    {fields : Fields} :
    toFields seen entries = .ok fields ↔
      List.Forall₂
          (fun entry field =>
            entry.1.keyText = .ok field.1 ∧
              entry.2.toValue = .ok field.2)
          entries fields ∧
        (Fields.keys fields).Nodup ∧
          ∀ key ∈ Fields.keys fields, key ∉ seen := by
  induction entries generalizing seen fields with
  | nil =>
      cases fields <;> simp [toFields, Fields.keys]
  | cons entry rest ih =>
      rcases entry with ⟨key, node⟩
      rw [toFields_cons_eq_ok_iff, List.forall₂_cons_left_iff]
      simp only [ih]
      constructor
      · rintro ⟨name, value, more, hName, hValue, hNew,
          ⟨hMore, hNodup, hAbsent⟩, rfl⟩
        refine
          ⟨⟨(name, value), more, ⟨hName, hValue⟩, hMore,
            rfl⟩, ?_, ?_⟩
        · rw [Fields.keys, List.map_cons, List.nodup_cons]
          refine ⟨?_, hNodup⟩
          intro hMem
          exact hAbsent name hMem List.mem_cons_self
        · rw [Fields.keys, List.map_cons,
            List.forall_mem_cons]
          refine ⟨hNew, ?_⟩
          intro other hOther hSeen
          exact
            hAbsent other hOther
              (List.mem_cons_of_mem _ hSeen)
      · rintro ⟨⟨⟨name, value⟩, more, ⟨hName, hValue⟩,
          hMore, rfl⟩, hNodup, hAbsent⟩
        rw [Fields.keys, List.map_cons, List.nodup_cons]
          at hNodup
        rw [Fields.keys, List.map_cons,
          List.forall_mem_cons] at hAbsent
        refine
          ⟨name, value, more, hName, hValue, hAbsent.1,
            ⟨hMore, hNodup.2, ?_⟩, rfl⟩
        intro other hOther hSeen
        rcases List.mem_cons.mp hSeen with rfl | hSeen
        · exact hNodup.1 hOther
        · exact hAbsent.2 other hOther hSeen

/- The texts of the keys are the keys of the fields. -/
theorem map_keyText_of_toFields
    {entries : List (Node × Node)}
    {fields : Fields}
    (hOk : toFields seen entries = .ok fields) :
    entries.map (fun entry => entry.1.keyText) =
      (Fields.keys fields).map .ok := by
  have hTexts := (toFields_eq_ok_iff.mp hOk).1
  rw [Fields.keys, List.map_map, ← List.forall₂_eq_eq_eq,
    List.forall₂_map_left_iff, List.forall₂_map_right_iff]
  exact hTexts.imp fun _ _ hEntry => hEntry.1

end Node

end Yaml

end Transclusion

------------------------------------------------------------
-- Errors
------------------------------------------------------------

namespace Transclusion

namespace Yaml

namespace Node

/- A tree has a text as a key if it has a value. -/
theorem keyText_eq_error_iff
    {node : Node}
    {collision : KeyCollision} :
    node.keyText = .error collision ↔
      node.toValue = .error collision := by
  induction node using induction with
  | null | bool _ | number _ | string _ =>
      simp [keyText, toValue]
  | sequence items _ =>
      rw [keyText, toValue]
      cases toItems items <;> simp [Except.map]
  | mapping entries _ =>
      rw [keyText, toValue]
      cases toFields [] entries <;> simp [Except.map]
  | tagged tag node ih =>
      rw [keyText, toValue]
      exact ih

/- A tree with a text as a key has a value. -/
theorem exists_toValue_of_keyText
    {node : Node}
    {name : String}
    (hName : node.keyText = .ok name) :
    ∃ value, node.toValue = .ok value := by
  cases hValue : node.toValue with
  | ok value => exact ⟨value, rfl⟩
  | error collision =>
      rw [keyText_eq_error_iff.mpr hValue] at hName
      cases hName

/- A list without values has a tree without one. -/
theorem toItems_eq_error
    {nodes : List Node}
    {collision : KeyCollision}
    (hError : toItems nodes = .error collision) :
    ∃ node ∈ nodes, node.toValue = .error collision := by
  induction nodes with
  | nil => cases hError
  | cons node rest ih =>
      rw [toItems] at hError
      cases hValue : node.toValue with
      | error found =>
          rw [hValue] at hError
          cases hError
          exact ⟨node, List.mem_cons_self, hValue⟩
      | ok value =>
          cases hMore : toItems rest with
          | error found =>
              rw [hValue, hMore] at hError
              cases hError
              rcases ih hMore with ⟨other, hOther, hFails⟩
              exact
                ⟨other, List.mem_cons_of_mem _ hOther,
                  hFails⟩
          | ok more =>
              rw [hValue, hMore] at hError
              cases hError

/-
  A mapping without a value has a tree without one in it, or
  a key that has been seen before, or one key twice.
-/
theorem toFields_eq_error
    {seen : List String}
    {entries : List (Node × Node)}
    {collision : KeyCollision}
    (hError :
      toFields seen entries = .error collision) :
    (∃ entry ∈ entries,
        entry.1.toValue = .error collision ∨
          entry.2.toValue = .error collision) ∨
      (collision.key ∈ seen ∧
        .ok collision.key ∈
          entries.map fun entry => entry.1.keyText) ∨
        List.Duplicate (.ok collision.key)
          (entries.map fun entry => entry.1.keyText) := by
  induction entries generalizing seen with
  | nil => cases hError
  | cons entry rest ih =>
      rcases entry with ⟨key, node⟩
      rw [toFields_cons_eq_error_iff] at hError
      rcases hError with hKey | ⟨name, hName, hError⟩
      · exact
          .inl
            ⟨(key, node), List.mem_cons_self,
              .inl (keyText_eq_error_iff.mp hKey)⟩
      rcases hError with
        hNode | ⟨value, _hValue,
          ⟨hSeen, rfl⟩ | ⟨_hNew, hRest⟩⟩
      · exact
          .inl
            ⟨(key, node), List.mem_cons_self, .inr hNode⟩
      · exact
          .inr
            (.inl
              ⟨hSeen, List.mem_cons.mpr (.inl hName.symm)⟩)
      rcases ih hRest with
        ⟨entry, hEntry, hFails⟩ | ⟨hSeen, hAgain⟩ | hTwice
      · exact
          .inl ⟨entry, List.mem_cons_of_mem _ hEntry, hFails⟩
      · -- the key seen before may be that of the first entry
        rcases List.mem_cons.mp hSeen with hFirst | hSeen
        · rw [List.map_cons, hName, hFirst]
          rw [hFirst] at hAgain
          exact .inr (.inr (.cons_mem hAgain))
        · exact
            .inr
              (.inl ⟨hSeen, List.mem_cons_of_mem _ hAgain⟩)
      · exact .inr (.inr (.cons_duplicate hTwice))

end Node

end Yaml

end Transclusion
