import Transclusion.Document
import Transclusion.Proofs.Value.OfTree

/-
  Documents that are read have distinct keys.

  Key theorems include:
    * `Transclusion.Yaml.Node.hasDistinctKeys_of_toValue`
    * `Transclusion.hasDistinctKeys_of_parseText`

  A tree has a value only if the keys of each mapping in it
  have different texts.
-/

------------------------------------------------------------
-- Values of Trees
------------------------------------------------------------

namespace Transclusion

namespace Yaml

namespace Node

/- The value of a tree has distinct keys. -/
theorem hasDistinctKeys_of_toValue
    (node : Node)
    {value : Value}
    (hOk : node.toValue = .ok value) :
    value.hasDistinctKeys = true := by
  induction node using induction generalizing value with
  | null | bool _ | string _ =>
      rw [toValue] at hOk
      cases hOk
      rfl
  | number n =>
      rw [toValue] at hOk
      cases hOk
      cases n.toNumber? <;> rfl
  | sequence nodes ih =>
      rcases toValue_sequence_eq_ok_iff.mp hOk with
        ⟨items, hItems, rfl⟩
      rw [Value.hasDistinctKeys_array_iff]
      intro item hMem
      rcases exists_of_mem_of_forall₂
          (toItems_eq_ok_iff.mp hItems).flip hMem with
        ⟨node, hNode, hItem⟩
      exact ih node hNode hItem
  | mapping entries ih =>
      rcases toValue_mapping_eq_ok_iff.mp hOk with
        ⟨fields, hFields, rfl⟩
      rcases toFields_eq_ok_iff.mp hFields with
        ⟨hEntries, hNodup, _⟩
      rw [Value.hasDistinctKeys_object_iff]
      refine ⟨hNodup, ?_⟩
      intro field hMem
      rcases exists_of_mem_of_forall₂ hEntries.flip hMem with
        ⟨entry, hEntry, _, hField⟩
      exact (ih entry hEntry).2 hField
  | tagged tag node ih =>
      rw [toValue] at hOk
      exact ih hOk

end Node

end Yaml

/- A text is read as a value with distinct keys. -/
theorem hasDistinctKeys_of_parseText
    {text : String}
    {value : Value}
    (hOk : parseText text = .ok value) :
    value.hasDistinctKeys = true := by
  unfold parseText at hOk
  split at hOk
  · cases hOk
    rfl
  · split at hOk
    · cases hOk
    · rename_i node _hNode
      split at hOk
      · rename_i read hValue
        cases hOk
        exact
          Yaml.Node.hasDistinctKeys_of_toValue node hValue
      · cases hOk

end Transclusion
