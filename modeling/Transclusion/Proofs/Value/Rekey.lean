import Mathlib.Logic.Function.Basic
import Transclusion.Proofs.Value.Same

/-
  Values with other names for their keys.

  Key definitions include:
    * `Transclusion.Value.rekey`
    * `Transclusion.Value.rekeyFields`
    * `Transclusion.Value.rekeyBelow`

  Key theorems include:
    * `Transclusion.Value.get?_rekeyFields`
    * `Transclusion.Value.same_rekey`
    * `Transclusion.Value.same_rekeyBelow`

  The keys of an object itself and the keys further inside
  get their new names from two functions.  Different keys
  keep different names, so that whatever is found under a
  key is found under its new name, and sameness stays.
-/

------------------------------------------------------------
-- New Names
------------------------------------------------------------

namespace Transclusion

namespace Value

mutual

/- A value with new names for all of its keys. -/
def rekey
    (inner : String → String) : Value → Value
  | .array items => .array (rekeyItems inner items)
  | .object fields =>
      .object (rekeyFields inner inner fields)
  | value => value

/- A list of values with new names for all of their keys. -/
def rekeyItems
    (inner : String → String) : List Value → List Value
  | [] => []
  | item :: rest =>
      rekey inner item :: rekeyItems inner rest

/-
  Fields with new names for their own keys and for those in
  their values.
-/
def rekeyFields
    (inner : String → String) :
    (String → String) → List (String × Value) →
      List (String × Value)
  | _, [] => []
  | outer, (key, value) :: rest =>
      (outer key, rekey inner value) ::
        rekeyFields inner outer rest

end

/-
  A value with new names for the keys below its root.  The
  keys at the root of an object stay.
-/
def rekeyBelow
    (inner : String → String) : Value → Value
  | .object fields => .object (rekeyFields inner id fields)
  | value => value.rekey inner

variable {inner outer : String → String}

/- New names are given in items one by one. -/
theorem rekeyItems_eq
    (items : List Value) :
    rekeyItems inner items = items.map (rekey inner) := by
  induction items with
  | nil => rfl
  | cons item rest ih =>
      rw [rekeyItems, ih, List.map_cons]

/- New names are given in fields one by one. -/
theorem rekeyFields_eq
    (fields : Fields) :
    rekeyFields inner outer fields =
      fields.map fun field =>
        (outer field.1, field.2.rekey inner) := by
  induction fields with
  | nil => rfl
  | cons field rest ih =>
      rw [rekeyFields, ih, List.map_cons]

/- New names are no other kind. -/
@[simp]
theorem kind_rekey
    (value : Value) :
    (value.rekey inner).kind = value.kind := by
  cases value <;> rfl

/- New names below the root are no other kind. -/
@[simp]
theorem kind_rekeyBelow
    (value : Value) :
    (value.rekeyBelow inner).kind = value.kind := by
  cases value <;> rfl

/- A value without keys stays as it is. -/
theorem rekey_of_plain
    {value : Value}
    (hPlain : value.kind = .plain) :
    value.rekey inner = value := by
  cases value with
  | array => cases hPlain
  | object => cases hPlain
  | _ => rfl

/- What is no object has all of its keys below the root. -/
theorem rekeyBelow_of_kind_ne
    {value : Value}
    (hKind : value.kind ≠ .object) :
    value.rekeyBelow inner = value.rekey inner := by
  cases value with
  | object => cases hKind rfl
  | _ => rfl

/- A list of texts has no keys. -/
@[simp]
theorem strings?_rekey
    (value : Value) :
    (value.rekey inner).strings? = value.strings? := by
  cases value with
  | array items =>
      have hString :
          ∀ item : Value,
            (item.rekey inner).string? = item.string? := by
        intro item
        cases item <;> rfl
      rw [rekey, rekeyItems_eq, strings?, strings?,
        List.mapM_map]
      congr 1
      funext item
      exact hString item
  | _ => rfl

end Value

end Transclusion

------------------------------------------------------------
-- Fields
------------------------------------------------------------

namespace Transclusion

namespace Value

variable {inner outer : String → String}

/- What is under a key is found under its new name. -/
theorem get?_rekeyFields
    (hOuter : Function.Injective outer)
    (fields : Fields)
    (key : String) :
    Fields.get? (rekeyFields inner outer fields)
        (outer key) =
      (Fields.get? fields key).map (rekey inner) := by
  induction fields with
  | nil => rfl
  | cons field rest ih =>
      obtain ⟨name, value⟩ := field
      rw [rekeyFields, Fields.get?_cons, Fields.get?_cons]
      by_cases hName : name = key
      · subst hName
        rw [if_pos rfl, if_pos rfl, Option.map_some]
      · have hOther : outer name ≠ outer key :=
          hOuter.ne hName
        rw [if_neg hName, if_neg hOther, ih]

/- A key is present if its new name is. -/
theorem hasKey_rekeyFields
    (hOuter : Function.Injective outer)
    (fields : Fields)
    (key : String) :
    Fields.hasKey (rekeyFields inner outer fields)
        (outer key) =
      Fields.hasKey fields key := by
  unfold Fields.hasKey
  rw [get?_rekeyFields hOuter, Option.isSome_map]

/- A key that keeps its name is erased as before. -/
theorem erase_rekeyFields
    (fields : Fields)
    (key : String) :
    Fields.erase (rekeyFields inner id fields) key =
      rekeyFields inner id (Fields.erase fields key) := by
  unfold Fields.erase
  rw [rekeyFields_eq, rekeyFields_eq, List.filter_map]
  rfl

end Value

end Transclusion

------------------------------------------------------------
-- Sameness
------------------------------------------------------------

namespace Transclusion

namespace Value

variable {inner outer : String → String}

/- Fields with new names are the same as before. -/
theorem sameFields_rekeyFields
    {as bs : Fields}
    (hOuter : Function.Injective outer)
    (hValues :
      ∀ field ∈ as, ∀ other : Value,
        (field.2.rekey inner).same (other.rekey inner) =
          field.2.same other) :
    sameFields (rekeyFields inner outer as)
        (rekeyFields inner outer bs) =
      sameFields as bs := by
  induction as with
  | nil => rfl
  | cons field rest ih =>
      obtain ⟨key, value⟩ := field
      rw [List.forall_mem_cons] at hValues
      rw [rekeyFields, sameFields, sameFields,
        ih hValues.2, get?_rekeyFields hOuter]
      cases hGet : Fields.get? bs key with
      | none => rfl
      | some other =>
          have hSame := hValues.1 other
          simp only [Option.map_some, hSame]

/- Objects with new names are the same as before. -/
theorem same_rekeyFields
    {as bs : Fields}
    (hOuter : Function.Injective outer)
    (hValues :
      ∀ field ∈ as, ∀ other : Value,
        (field.2.rekey inner).same (other.rekey inner) =
          field.2.same other) :
    (Value.object (rekeyFields inner outer as)).same
        (.object (rekeyFields inner outer bs)) =
      (Value.object as).same (.object bs) := by
  have hFields :
      sameFields (rekeyFields inner outer as)
          (rekeyFields inner outer bs) =
        sameFields as bs :=
    sameFields_rekeyFields hOuter hValues
  have hLength (fields : Fields) :
      (rekeyFields inner outer fields).length =
        fields.length := by
    rw [rekeyFields_eq, List.length_map]
  rw [same, same, hFields, hLength as, hLength bs]

/- Values of two kinds are not the same. -/
theorem same_of_kind_ne
    {a b : Value}
    (hKind : a.kind ≠ b.kind) :
    a.same b = false := by
  rw [Bool.eq_false_iff]
  intro hSame
  exact hKind (kind_eq_of_same hSame)

/- Values with new names are the same as before. -/
theorem same_rekey
    (hInner : Function.Injective inner)
    (a b : Value) :
    (a.rekey inner).same (b.rekey inner) = a.same b := by
  induction a using Value.induction generalizing b with
  | plain a hPlain =>
      by_cases hKind : a.kind = b.kind
      · have hPlain' : b.kind = .plain :=
          hKind.symm.trans hPlain
        rw [rekey_of_plain hPlain, rekey_of_plain hPlain']
      · rw [same_of_kind_ne hKind,
          same_of_kind_ne (by simpa using hKind)]
  | array as ih =>
      cases b with
      | array bs =>
          rw [rekey, rekey, same, same]
          induction as generalizing bs with
          | nil => cases bs <;> rfl
          | cons a as ihRest =>
              rw [List.forall_mem_cons] at ih
              cases bs with
              | nil => rfl
              | cons b bs =>
                  rw [rekeyItems, rekeyItems, sameItems,
                    sameItems, ih.1 b, ihRest ih.2 bs]
      | _ => rfl
  | object as ih =>
      cases b with
      | object bs => exact same_rekeyFields hInner ih
      | _ => rfl

/- New names below the root leave values the same, too. -/
theorem same_rekeyBelow
    (hInner : Function.Injective inner)
    (a b : Value) :
    (a.rekeyBelow inner).same (b.rekeyBelow inner) =
      a.same b := by
  by_cases hKind : a.kind = b.kind
  · by_cases hObject : a.kind = .object
    · have hObject' := hKind.symm.trans hObject
      rcases kind_eq_object_iff.mp hObject with ⟨as, rfl⟩
      rcases kind_eq_object_iff.mp hObject' with ⟨bs, rfl⟩
      apply same_rekeyFields Function.injective_id
      intro field _hField other
      exact same_rekey hInner field.2 other
    · have hObject' : b.kind ≠ .object := by
        rw [← hKind]
        exact hObject
      rw [rekeyBelow_of_kind_ne hObject,
        rekeyBelow_of_kind_ne hObject']
      exact same_rekey hInner a b
  · rw [same_of_kind_ne hKind,
      same_of_kind_ne (by simpa using hKind)]

end Value

end Transclusion
