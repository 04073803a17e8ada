import Transclusion.Number.Number

/-
  Structured values: the content of a document once its
  notation is forgotten.

  Key definitions include:
    * `Transclusion.Value`
    * `Transclusion.Value.same`
    * `Transclusion.Value.equal`
    * `Transclusion.Value.strings?`
    * `Transclusion.Fields.get?`
    * `Transclusion.Fields.erase`

  The fields of an object keep the order in which they were
  written.  Sameness of values ignores that order, and
  equality does not.
-/

------------------------------------------------------------
-- Values
------------------------------------------------------------

namespace Transclusion

/- A structured value. -/
inductive Value where
  | null
  | bool (b : Bool)
  | number (n : Number)
  | string (s : String)
  | array (items : List Value)
  | object (fields : List (String × Value))

namespace Value

instance : Inhabited Value :=
  ⟨.null⟩

/- The object without fields. -/
def empty : Value :=
  .object []

end Value

end Transclusion

------------------------------------------------------------
-- Fields
------------------------------------------------------------

namespace Transclusion

/- The fields of an object, in order. -/
abbrev Fields :=
  List (String × Value)

namespace Fields

/- The value under a key. -/
def get?
    (fields : Fields)
    (key : String) : Option Value :=
  match fields with
  | [] => none
  | (name, value) :: rest =>
      if name = key then some value else get? rest key

/- Whether a key is present. -/
def hasKey
    (fields : Fields)
    (key : String) : Bool :=
  (get? fields key).isSome

/- The keys, in order. -/
def keys
    (fields : Fields) : List String :=
  fields.map (·.1)

/- The fields without a key, in their order. -/
def erase
    (fields : Fields)
    (key : String) : Fields :=
  fields.filter fun field => field.1 ≠ key

/- A key has a value exactly if it is among the keys. -/
theorem hasKey_iff_mem_keys
    (fields : Fields)
    (key : String) :
    hasKey fields key = true ↔ key ∈ keys fields := by
  induction fields with
  | nil => simp [hasKey, get?, keys]
  | cons field rest ih =>
      obtain ⟨name, value⟩ := field
      by_cases h : name = key
      · simp [hasKey, get?, keys, h]
      · have h' : ¬ key = name := fun e => h e.symm
        simpa [hasKey, get?, keys, h, h'] using ih

/- An erased key is gone. -/
theorem get?_erase_self
    (fields : Fields)
    (key : String) :
    get? (erase fields key) key = none := by
  induction fields with
  | nil => simp [erase, get?]
  | cons field rest ih =>
      obtain ⟨name, value⟩ := field
      by_cases h : name = key
      · simpa [erase, h] using ih
      · simpa [erase, get?, h] using ih

/- Erasing a key leaves every other one alone. -/
theorem get?_erase_of_ne
    (fields : Fields)
    {key other : String}
    (hne : other ≠ key) :
    get? (erase fields key) other = get? fields other := by
  induction fields with
  | nil => simp [erase, get?]
  | cons field rest ih =>
      obtain ⟨name, value⟩ := field
      by_cases h : name = key
      · have h' : ¬ name = other :=
          fun e => hne (e.symm.trans h)
        simpa [erase, get?, h, Ne.symm hne] using ih
      · by_cases ho : name = other
        · simp [erase, get?, ho, hne]
        · simpa [erase, get?, h, ho] using ih

end Fields

end Transclusion

------------------------------------------------------------
-- Sameness
------------------------------------------------------------

namespace Transclusion

namespace Value

mutual

/-
  Sameness of values.  Two objects are the same if they have
  equally many fields and each field of the first has the
  same value in the second.
-/
def same : Value → Value → Bool
  | .null, .null => true
  | .bool a, .bool b => a == b
  | .number a, .number b => a.same b
  | .string a, .string b => a == b
  | .array as, .array bs => sameItems as bs
  | .object as, .object bs =>
      as.length == bs.length && sameFields as bs
  | _, _ => false

/- Sameness of lists, place by place. -/
def sameItems : List Value → List Value → Bool
  | [], [] => true
  | a :: as, b :: bs => same a b && sameItems as bs
  | _, _ => false

/- Each of the first fields has its like in the second. -/
def sameFields :
    List (String × Value) → List (String × Value) → Bool
  | [], _ => true
  | (key, a) :: as, bs =>
      (match Fields.get? bs key with
        | some b => same a b
        | none => false) &&
        sameFields as bs

end

end Value

end Transclusion

------------------------------------------------------------
-- Equality
------------------------------------------------------------

namespace Transclusion

namespace Value

mutual

/-
  Whether two values are equal, the order of fields
  included.
-/
def equal : Value → Value → Bool
  | .null, .null => true
  | .bool a, .bool b => a == b
  | .number a, .number b => a == b
  | .string a, .string b => a == b
  | .array as, .array bs => equalItems as bs
  | .object as, .object bs => equalFields as bs
  | _, _ => false

/- Whether two lists are equal, place by place. -/
def equalItems : List Value → List Value → Bool
  | [], [] => true
  | a :: as, b :: bs => equal a b && equalItems as bs
  | _, _ => false

/- Whether two lists of fields are equal, in order. -/
def equalFields :
    List (String × Value) → List (String × Value) → Bool
  | [], [] => true
  | (key, a) :: as, (other, b) :: bs =>
      key == other && equal a b && equalFields as bs
  | _, _ => false

end

mutual

/- `equal` decides equality. -/
theorem equal_iff_eq
    (a b : Value) :
    equal a b = true ↔ a = b := by
  cases a <;> cases b <;>
    simp [equal, equalItems_iff_eq, equalFields_iff_eq]

/- `equalItems` decides equality. -/
theorem equalItems_iff_eq
    (as bs : List Value) :
    equalItems as bs = true ↔ as = bs := by
  match as, bs with
  | [], [] => simp [equalItems]
  | [], _ :: _ => simp [equalItems]
  | _ :: _, [] => simp [equalItems]
  | a :: as, b :: bs =>
      simp [equalItems, equal_iff_eq a b,
        equalItems_iff_eq as bs]

/- `equalFields` decides equality. -/
theorem equalFields_iff_eq
    (as bs : List (String × Value)) :
    equalFields as bs = true ↔ as = bs := by
  match as, bs with
  | [], [] => simp [equalFields]
  | [], _ :: _ => simp [equalFields]
  | _ :: _, [] => simp [equalFields]
  | (key, a) :: as, (other, b) :: bs =>
      simp [equalFields, equal_iff_eq a b,
        equalFields_iff_eq as bs, and_assoc]

end

instance : DecidableEq Value := fun a b =>
  decidable_of_iff _ (equal_iff_eq a b)

end Value

end Transclusion

------------------------------------------------------------
-- Views
------------------------------------------------------------

namespace Transclusion

namespace Value

/- The text of a string. -/
def string? : Value → Option String
  | .string s => some s
  | _ => none

/- The strings of an array that holds nothing else. -/
def strings? : Value → Option (List String)
  | .array items => items.mapM string?
  | _ => none

end Value

end Transclusion
