import Transclusion.Proofs.Value.OfTree

/-
  Which trees have values, and which values those are.

  Key definitions include:
    * `Transclusion.Yaml.Node.Occurs`
    * `Transclusion.Yaml.Node.Collides`
    * `Transclusion.Yaml.Node.Becomes`

  Key theorems include:
    * `Transclusion.Yaml.Node.exists_toValue_of_occurs`
    * `Transclusion.Yaml.Node.not_collides_of_toValue`
    * `Transclusion.Yaml.Node.collides_of_toValue`
    * `Transclusion.Yaml.Node.becomes_of_toValue`
    * `Transclusion.Yaml.Node.becomes_or_collides`

  Nothing keeps a tree from having a value but two entries
  of one mapping that have one key as a text.  The mapping
  may be anywhere in the tree, in a key as well.
-/

------------------------------------------------------------
-- Trees in Trees
------------------------------------------------------------

namespace Transclusion

namespace Yaml

namespace Node

/-
  A tree occurs in another one if it is that one, or occurs
  in an item, a key or a value of it, or behind its tag.
-/
inductive Occurs
    (inner : Node) : Node → Prop where
  | here : Occurs inner inner
  | item
      {items : List Node}
      {item : Node}
      (hItem : item ∈ items)
      (hInner : Occurs inner item) :
      Occurs inner (.sequence items)
  | key
      {entries : List (Node × Node)}
      {entry : Node × Node}
      (hEntry : entry ∈ entries)
      (hInner : Occurs inner entry.1) :
      Occurs inner (.mapping entries)
  | value
      {entries : List (Node × Node)}
      {entry : Node × Node}
      (hEntry : entry ∈ entries)
      (hInner : Occurs inner entry.2) :
      Occurs inner (.mapping entries)
  | tagged
      {node : Node}
      (tag : String)
      (hInner : Occurs inner node) :
      Occurs inner (.tagged tag node)

/-
  Two entries of a mapping that occurs in a tree have keys
  with one text.
-/
def Collides
    (node : Node)
    (name : String) : Prop :=
  ∃ entries,
    Occurs (.mapping entries) node ∧
      List.Duplicate (.ok name)
        (entries.map fun entry => entry.1.keyText)

end Node

end Yaml

end Transclusion

------------------------------------------------------------
-- Values without Collisions
------------------------------------------------------------

namespace Transclusion

namespace Yaml

namespace Node

variable {node : Node}
variable {value : Value}

/- What occurs in a tree with a value has a value. -/
theorem exists_toValue_of_occurs
    {inner : Node}
    (hOccurs : Occurs inner node)
    (hOk : node.toValue = .ok value) :
    ∃ found, inner.toValue = .ok found := by
  induction hOccurs generalizing value with
  | here => exact ⟨value, hOk⟩
  | item hItem _ ih =>
      rcases toValue_sequence_eq_ok_iff.mp hOk with
        ⟨items, hItems, _⟩
      rcases exists_of_mem_of_forall₂
          (toItems_eq_ok_iff.mp hItems) hItem with
        ⟨item, _, hItem⟩
      exact ih hItem
  | key hEntry _ ih =>
      rcases toValue_mapping_eq_ok_iff.mp hOk with
        ⟨fields, hFields, _⟩
      rcases exists_of_mem_of_forall₂
          (toFields_eq_ok_iff.mp hFields).1 hEntry with
        ⟨field, _, hKey, _⟩
      -- the text of a key is made of its value
      rcases exists_toValue_of_keyText hKey with
        ⟨key, hKey⟩
      exact ih hKey
  | value hEntry _ ih =>
      rcases toValue_mapping_eq_ok_iff.mp hOk with
        ⟨fields, hFields, _⟩
      rcases exists_of_mem_of_forall₂
          (toFields_eq_ok_iff.mp hFields).1 hEntry with
        ⟨field, _, _, hValue⟩
      exact ih hValue
  | tagged tag _ ih =>
      rw [toValue] at hOk
      exact ih hOk

/- A tree with a value has no collision in it. -/
theorem not_collides_of_toValue
    (hOk : node.toValue = .ok value)
    (name : String) :
    ¬ node.Collides name := by
  rintro ⟨entries, hOccurs, hTwice⟩
  rcases exists_toValue_of_occurs hOccurs hOk with
    ⟨object, hObject⟩
  rcases toValue_mapping_eq_ok_iff.mp hObject with
    ⟨fields, hFields, _⟩
  have hTexts : (Fields.keys fields).Nodup :=
    (toFields_eq_ok_iff.mp hFields).2.1
  rw [map_keyText_of_toFields hFields] at hTwice
  exact
    hTwice.not_nodup
      (hTexts.map fun _ _ hSame => Except.ok.inj hSame)

/- A tree without a value has the collision in it. -/
theorem collides_of_toValue
    {collision : KeyCollision}
    (hError : node.toValue = .error collision) :
    node.Collides collision.key := by
  induction node using induction with
  | null | bool _ | number _ | string _ =>
      rw [toValue] at hError
      cases hError
  | sequence items ih =>
      rcases toItems_eq_error
          (toValue_sequence_eq_error_iff.mp hError) with
        ⟨item, hItem, hFails⟩
      rcases ih item hItem hFails with
        ⟨entries, hOccurs, hTwice⟩
      exact ⟨entries, .item hItem hOccurs, hTwice⟩
  | mapping entries ih =>
      rcases toFields_eq_error
          (toValue_mapping_eq_error_iff.mp hError) with
        ⟨entry, hEntry, hKey | hValue⟩ | ⟨hSeen, _⟩ | hTwice
      · rcases (ih entry hEntry).1 hKey with
          ⟨inner, hOccurs, hTwice⟩
        exact ⟨inner, .key hEntry hOccurs, hTwice⟩
      · rcases (ih entry hEntry).2 hValue with
          ⟨inner, hOccurs, hTwice⟩
        exact ⟨inner, .value hEntry hOccurs, hTwice⟩
      · -- no key comes before those of the mapping
        cases hSeen
      · exact ⟨entries, .here, hTwice⟩
  | tagged tag node ih =>
      rw [toValue] at hError
      rcases ih hError with ⟨entries, hOccurs, hTwice⟩
      exact ⟨entries, .tagged tag hOccurs, hTwice⟩

end Node

end Yaml

end Transclusion

------------------------------------------------------------
-- What Trees Become
------------------------------------------------------------

namespace Transclusion

namespace Yaml

namespace Node

/-
  The value that a tree becomes.  Collections keep what is
  in them and its order, keys become their texts, tags are
  forgotten, and the numbers that are not finite are nothing.
-/
inductive Becomes : Node → Value → Prop where
  | null : Becomes .null .null
  | bool
      (b : Bool) :
      Becomes (.bool b) (.bool b)
  | integer
      (n : Integer) :
      Becomes (.number (.integer n)) (.number (.integer n))
  | finite
      (d : Double) :
      Becomes
        (.number (.double (.finite d)))
        (.number (.double d))
  | infinity
      (negative : Bool) :
      Becomes (.number (.double (.infinity negative))) .null
  | notANumber :
      Becomes (.number (.double .notANumber)) .null
  | string
      (s : String) :
      Becomes (.string s) (.string s)
  | sequence
      {nodes : List Node}
      {items : List Value}
      (hItems : List.Forall₂ Becomes nodes items) :
      Becomes (.sequence nodes) (.array items)
  | mapping
      {entries : List (Node × Node)}
      {fields : Fields}
      (hKeys :
        entries.map (fun entry => entry.1.keyText) =
          (Fields.keys fields).map .ok)
      (hValues :
        List.Forall₂ Becomes
          (entries.map Prod.snd) (fields.map Prod.snd)) :
      Becomes (.mapping entries) (.object fields)
  | tagged
      {node : Node}
      {value : Value}
      (tag : String)
      (hNode : Becomes node value) :
      Becomes (.tagged tag node) value

/- A number becomes itself, or nothing. -/
theorem becomes_number
    (n : YamlNumber) :
    Becomes (.number n) (n.toNumber?.elim .null .number) := by
  cases n with
  | integer n => exact .integer n
  | double d =>
      cases d with
      | finite d => exact .finite d
      | infinity negative => exact .infinity negative
      | notANumber => exact .notANumber

/- A tree becomes its value. -/
theorem becomes_of_toValue
    {node : Node}
    {value : Value}
    (hOk : node.toValue = .ok value) :
    node.Becomes value := by
  induction node using induction generalizing value with
  | null | bool _ | string _ =>
      rw [toValue] at hOk
      cases hOk
      constructor
  | number n =>
      rw [toValue] at hOk
      cases hOk
      exact becomes_number n
  | sequence nodes ih =>
      rcases toValue_sequence_eq_ok_iff.mp hOk with
        ⟨items, hItems, rfl⟩
      refine
        .sequence
          (forall₂_of_forall_mem
            (toItems_eq_ok_iff.mp hItems) ?_)
      intro node hNode item hItem
      exact ih node hNode hItem
  | mapping entries ih =>
      rcases toValue_mapping_eq_ok_iff.mp hOk with
        ⟨fields, hFields, rfl⟩
      refine .mapping (map_keyText_of_toFields hFields) ?_
      rw [List.forall₂_map_left_iff, List.forall₂_map_right_iff]
      refine
        forall₂_of_forall_mem
          (toFields_eq_ok_iff.mp hFields).1 ?_
      rintro entry hEntry field ⟨_, hField⟩
      exact (ih entry hEntry).2 hField
  | tagged tag node ih =>
      rw [toValue] at hOk
      exact .tagged tag (ih hOk)

/-
  A tree has a value exactly if there is no collision in it,
  becomes that value, and if it has none, then a key that is
  in collision is named.
-/
theorem becomes_or_collides
    (node : Node) :
    ((∃ value, node.toValue = .ok value) ↔
        ∀ name, ¬ node.Collides name) ∧
      (∀ value,
        node.toValue = .ok value → node.Becomes value) ∧
        ∀ collision,
          node.toValue = .error collision →
            node.Collides collision.key ∧
              collision.message =
                "duplicate mapping key '" ++ collision.key ++
                  "' after key conversion" := by
  refine ⟨⟨?_, ?_⟩, fun _ => becomes_of_toValue, ?_⟩
  · rintro ⟨value, hOk⟩
    exact not_collides_of_toValue hOk
  · intro hNone
    cases hValue : node.toValue with
    | ok value => exact ⟨value, rfl⟩
    | error collision =>
        exact
          absurd (collides_of_toValue hValue)
            (hNone collision.key)
  · intro collision hError
    exact ⟨collides_of_toValue hError, rfl⟩

/- A tree with tags and with keys of different kinds. -/
def labelled : Node :=
  .tagged "!table"
    (.mapping
      [(.tagged "!flag" (.bool true),
          .number (.double .notANumber)),
        (.sequence [.number (.integer { value := 1 })],
          .mapping [(.null, .string "x")])])

/- A tree with a collision inside of a key. -/
def crowded : Node :=
  .sequence
    [.mapping
      [(.mapping
          [(.sequence [.bool true], .null),
            (.string "[true]", .null)],
          .null)]]

/- A list as a key collides with its own text. -/
theorem becomes_or_collides_labelled :
    (∀ name, ¬ labelled.Collides name) ∧
      labelled.Becomes
        (.object
          [("true", .null),
            ("[1]", .object [("null", .string "x")])]) ∧
        crowded.Collides "[true]" := by
  have hLabelled :
      labelled.toValue =
        .ok
          (.object
            [("true", .null),
              ("[1]", .object [("null", .string "x")])]) := by
    rfl
  have hCrowded :
      crowded.toValue = .error ⟨"[true]"⟩ := by
    rfl
  refine ⟨?_, ?_, ?_⟩
  · exact (becomes_or_collides labelled).1.mp ⟨_, hLabelled⟩
  · exact (becomes_or_collides labelled).2.1 _ hLabelled
  · exact ((becomes_or_collides crowded).2.2 _ hCrowded).1

end Node

end Yaml

end Transclusion
