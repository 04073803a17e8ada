import Mathlib.Data.List.Forall2
import Mathlib.Data.List.Nodup
import Transclusion.Value.Value

/-
  The kinds of values, the values inside them, and the
  fields of objects by their keys.

  Key definitions include:
    * `Transclusion.Value.kind`
    * `Transclusion.Value.hasDistinctKeys`

  Key theorems include:
    * `Transclusion.exists_of_mem_of_forall₂`
    * `Transclusion.rel_lookup_of_forall₂`
    * `Transclusion.Value.induction`
    * `Transclusion.Fields.ext`
    * `Transclusion.Value.hasDistinctKeys_object_iff`

  Fields with different keys are the same fields if they
  have the same keys in the same order and the same value
  under each of them.
-/

------------------------------------------------------------
-- Related Lists
------------------------------------------------------------

namespace Transclusion

/- Related lists leave no element on the left alone. -/
theorem exists_of_mem_of_forall₂
    {α β : Type}
    {R : α → β → Prop}
    {as : List α}
    {bs : List β}
    {a : α}
    (hRelated : List.Forall₂ R as bs)
    (hMem : a ∈ as) :
    ∃ b ∈ bs, R a b := by
  induction hRelated with
  | nil => cases hMem
  | @cons first b rest bs hFirst hRest ih =>
      rcases List.mem_cons.mp hMem with rfl | hMem
      · exact ⟨b, List.mem_cons_self, hFirst⟩
      · rcases ih hMem with ⟨other, hOther, hRelated⟩
        exact
          ⟨other, List.mem_cons_of_mem _ hOther, hRelated⟩

/- Related lists with the same keys have related values. -/
theorem rel_lookup_of_forall₂
    {κ α β : Type}
    [BEq κ]
    {R : α → β → Prop}
    {as : List (κ × α)}
    {bs : List (κ × β)}
    (hRelated :
      List.Forall₂
        (fun first second =>
          first.1 = second.1 ∧ R first.2 second.2)
        as bs)
    (key : κ) :
    Option.Rel R (as.lookup key) (bs.lookup key) := by
  induction hRelated with
  | nil => exact .none
  | @cons first second _ _ hFirst _hRest ih =>
      rcases first with ⟨name, a⟩
      rcases second with ⟨_, b⟩
      rcases hFirst with ⟨rfl, hRel⟩
      rw [List.lookup_cons, List.lookup_cons]
      dsimp only
      cases key == name with
      | true => exact .some hRel
      | false => exact ih

/- Related lists are related by what follows on the left. -/
theorem forall₂_of_forall_mem
    {α β : Type}
    {R S : α → β → Prop}
    {as : List α}
    {bs : List β}
    (hRelated : List.Forall₂ R as bs)
    (hImp : ∀ a ∈ as, ∀ b, R a b → S a b) :
    List.Forall₂ S as bs := by
  have hBoth :=
    (List.forall₂_and_left as bs).mpr ⟨hImp, hRelated⟩
  exact hBoth.imp fun _ b hElement => hElement.1 b hElement.2

end Transclusion

------------------------------------------------------------
-- Kinds
------------------------------------------------------------

namespace Transclusion

/- What can be merged with what: a plain value is no collection. -/
inductive Kind where
  | plain
  | array
  | object
  deriving DecidableEq

namespace Value

/- The kind of a value. -/
def kind : Value → Kind
  | .array _ => .array
  | .object _ => .object
  | _ => .plain

/- The kind of arrays. -/
@[simp]
theorem kind_array
    (items : List Value) :
    (Value.array items).kind = .array := by
  rfl

/- The kind of objects. -/
@[simp]
theorem kind_object
    (fields : Fields) :
    (Value.object fields).kind = .object := by
  rfl

/- A value of the kind of arrays has items. -/
theorem kind_eq_array_iff
    {value : Value} :
    value.kind = .array ↔
      ∃ items, value = .array items := by
  cases value <;> simp [kind]

/- A value of the kind of objects has fields. -/
theorem kind_eq_object_iff
    {value : Value} :
    value.kind = .object ↔
      ∃ fields, value = .object fields := by
  cases value <;> simp [kind]

/-
  What holds of every plain value, and of a collection if it
  holds of what is in it, holds of every value.
-/
@[elab_as_elim]
theorem induction
    {motive : Value → Prop}
    (plain : ∀ value, value.kind = .plain → motive value)
    (array :
      ∀ items,
        (∀ item ∈ items, motive item) →
          motive (.array items))
    (object :
      ∀ fields,
        (∀ field ∈ fields, motive field.2) →
          motive (.object fields))
    (value : Value) : motive value := by
  refine
    @Value.rec motive
      (fun items => ∀ item ∈ items, motive item)
      (fun fields => ∀ field ∈ fields, motive field.2)
      (fun field => motive field.2)
      ?null ?bool ?number ?string ?array ?object
      ?noItems ?items ?noFields ?fields ?field value
  case null => exact plain .null rfl
  case bool => exact fun b => plain (.bool b) rfl
  case number => exact fun n => plain (.number n) rfl
  case string => exact fun s => plain (.string s) rfl
  case array => exact array
  case object => exact object
  case noItems => simp
  case items =>
    intro item rest hItem hRest other hOther
    rcases List.mem_cons.mp hOther with rfl | hMem
    · exact hItem
    · exact hRest other hMem
  case noFields => simp
  case fields =>
    intro field rest hField hRest other hOther
    rcases List.mem_cons.mp hOther with rfl | hMem
    · exact hField
    · exact hRest other hMem
  case field => exact fun key value hValue => hValue

end Value

end Transclusion

------------------------------------------------------------
-- Fields by Key
------------------------------------------------------------

namespace Transclusion

namespace Fields

variable {as bs fields : Fields}
variable {key : String}
variable {value : Value}

/- The first field decides about its key. -/
theorem get?_cons
    (name : String)
    (value : Value)
    (rest : Fields)
    (key : String) :
    get? ((name, value) :: rest) key =
      if name = key then some value else get? rest key := by
  rfl

/- A value under a key is that of a field. -/
theorem mem_of_get?_eq_some
    (hGet : get? fields key = some value) :
    (key, value) ∈ fields := by
  induction fields with
  | nil => cases hGet
  | cons field rest ih =>
      obtain ⟨name, first⟩ := field
      rw [get?_cons] at hGet
      by_cases hName : name = key
      · rw [if_pos hName, Option.some.injEq] at hGet
        rw [hName, hGet]
        exact List.mem_cons_self
      · rw [if_neg hName] at hGet
        exact List.mem_cons_of_mem _ (ih hGet)

/- Among different keys, a field is found by its key. -/
theorem get?_eq_some_of_mem
    (hNodup : (keys fields).Nodup)
    (hMem : (key, value) ∈ fields) :
    get? fields key = some value := by
  induction fields with
  | nil => cases hMem
  | cons field rest ih =>
      obtain ⟨name, first⟩ := field
      rw [keys, List.map_cons, List.nodup_cons] at hNodup
      rw [get?_cons]
      rcases List.mem_cons.mp hMem with hFirst | hRest
      · cases hFirst
        exact if_pos rfl
      · have hName : name ≠ key := by
          rintro rfl
          exact
            hNodup.1 (List.mem_map.mpr ⟨_, hRest, rfl⟩)
        rw [if_neg hName]
        exact ih hNodup.2 hRest

/- No value is found exactly under keys that are absent. -/
theorem get?_eq_none_iff :
    get? fields key = none ↔ key ∉ keys fields := by
  rw [← hasKey_iff_mem_keys, hasKey,
    Option.not_isSome_iff_eq_none]

/- A value is found exactly under keys that are present. -/
theorem exists_get?_iff :
    (∃ value, get? fields key = some value) ↔
      key ∈ keys fields := by
  rw [← hasKey_iff_mem_keys, hasKey,
    Option.isSome_iff_exists]

/- Fields at the front hide those behind them. -/
theorem get?_append :
    get? (as ++ bs) key =
      (get? as key).or (get? bs key) := by
  induction as with
  | nil => rfl
  | cons field rest ih =>
      obtain ⟨name, first⟩ := field
      rw [List.cons_append, get?_cons, get?_cons]
      by_cases hName : name = key
      · rw [if_pos hName, if_pos hName, Option.some_or]
      · rw [if_neg hName, if_neg hName, ih]

/- Keys of fields one after another. -/
theorem keys_append :
    keys (as ++ bs) = keys as ++ keys bs :=
  List.map_append

/- Fields with different keys are told apart by key. -/
theorem ext
    (hNodup : (keys as).Nodup)
    (hKeys : keys as = keys bs)
    (hGet : ∀ key, get? as key = get? bs key) :
    as = bs := by
  induction as generalizing bs with
  | nil =>
      have hEmpty := List.map_eq_nil_iff.mp hKeys.symm
      exact hEmpty.symm
  | cons field rest ih =>
      obtain ⟨name, value⟩ := field
      cases bs with
      | nil => cases hKeys
      | cons other others =>
          obtain ⟨name', value'⟩ := other
          simp only [keys, List.map_cons, List.nodup_cons,
            List.cons.injEq] at hNodup hKeys
          obtain ⟨rfl, hKeys⟩ := hKeys
          have hValue : value = value' := by
            simpa [get?_cons] using hGet name
          have hRest :
              ∀ key, get? rest key = get? others key := by
            intro key
            by_cases hName : name = key
            · subst hName
              have hOthers := hNodup.1
              rw [hKeys] at hOthers
              rw [get?_eq_none_iff.mpr hNodup.1,
                get?_eq_none_iff.mpr hOthers]
            · simpa [get?_cons, hName] using hGet key
          rw [hValue, ih hNodup.2 hKeys hRest]

end Fields

end Transclusion

------------------------------------------------------------
-- Distinct Keys
------------------------------------------------------------

namespace Transclusion

namespace Value

mutual

/- Whether no object in a value has a key twice. -/
def hasDistinctKeys : Value → Bool
  | .array items => itemsHaveDistinctKeys items
  | .object fields =>
      decide (Fields.keys fields).Nodup &&
        fieldsHaveDistinctKeys fields
  | _ => true

/- Whether this is so of every item. -/
def itemsHaveDistinctKeys : List Value → Bool
  | [] => true
  | item :: rest =>
      hasDistinctKeys item && itemsHaveDistinctKeys rest

/- Whether this is so of the value of every field. -/
def fieldsHaveDistinctKeys :
    List (String × Value) → Bool
  | [] => true
  | (_, value) :: rest =>
      hasDistinctKeys value && fieldsHaveDistinctKeys rest

end

/- Keys are distinct in items one by one. -/
theorem itemsHaveDistinctKeys_iff
    {items : List Value} :
    itemsHaveDistinctKeys items = true ↔
      ∀ item ∈ items, item.hasDistinctKeys = true := by
  induction items with
  | nil => simp [itemsHaveDistinctKeys]
  | cons item rest ih => simp [itemsHaveDistinctKeys, ih]

/- Keys are distinct in the values of fields one by one. -/
theorem fieldsHaveDistinctKeys_iff
    {fields : Fields} :
    fieldsHaveDistinctKeys fields = true ↔
      ∀ field ∈ fields,
        field.2.hasDistinctKeys = true := by
  induction fields with
  | nil => simp [fieldsHaveDistinctKeys]
  | cons field rest ih => simp [fieldsHaveDistinctKeys, ih]

/- Keys are distinct in an array if they are in its items. -/
theorem hasDistinctKeys_array_iff
    {items : List Value} :
    (Value.array items).hasDistinctKeys = true ↔
      ∀ item ∈ items, item.hasDistinctKeys = true := by
  rw [hasDistinctKeys, itemsHaveDistinctKeys_iff]

/-
  Keys are distinct in an object if its own keys are and the
  keys in its values are.
-/
theorem hasDistinctKeys_object_iff
    {fields : Fields} :
    (Value.object fields).hasDistinctKeys = true ↔
      (Fields.keys fields).Nodup ∧
        ∀ field ∈ fields,
          field.2.hasDistinctKeys = true := by
  rw [hasDistinctKeys, Bool.and_eq_true,
    decide_eq_true_eq, fieldsHaveDistinctKeys_iff]

end Value

end Transclusion
