import Transclusion.Reading.Complaint
import Transclusion.Value.Json

/-
  Shapes: what structured values are wanted to look like.

  Key definitions include:
    * `Transclusion.Shape`
    * `Transclusion.Shape.read`

  Reading a value in a shape gives the value that is meant:
  records have all their fields, in the order of the shape
  and nothing else, and maps are in the order of their keys.
-/

------------------------------------------------------------
-- Shapes
------------------------------------------------------------

namespace Transclusion

/-
  What a value is wanted to look like.  A field of a record
  has a name, a shape and, unless it is required, a default.
-/
inductive Shape where
  | string
  | bool
  | integer (name : String) (low high : Int)
  | optional (shape : Shape)
  | list (shape : Shape)
  | map (shape : Shape)
  | choice (names : List String)
  | record
      (name : String)
      (fields : List (String × Shape × Option Value))

/- What a value is, for a complaint about it. -/
def Value.found : Value → Found
  | .null => .nothing
  | .bool b => .bool b
  | .number (.integer n) => .integer n.value
  | .number (.double d) => .double (.finite d)
  | .string s => .string s
  | .array _ => .sequence
  | .object _ => .map

end Transclusion

------------------------------------------------------------
-- Reading
------------------------------------------------------------

namespace Transclusion

namespace Shape

/- Reading of a value, as the value that is meant. -/
abbrev Reader :=
  Value → Except Complaint Value

/- Complain about the type of a value. -/
def refuse
    (expected : String) : Reader :=
  fun value => .error (.invalidType value.found expected)

/- An integer in a range. -/
def readInteger
    (name : String)
    (low high : Int) : Reader
  | .number (.integer n) =>
      if low ≤ n.value ∧ n.value ≤ high then
        .ok (.number (.integer n))
      else
        .error (.invalidValue (.integer n.value) name)
  | value => refuse name value

/- Items of one shape, in order. -/
def readItems
    (read : Reader) :
    List Value → Except Complaint (List Value)
  | [] => .ok []
  | item :: rest => do
      let value ← read item
      let more ← readItems read rest
      return value :: more

/- Fields of one shape, in order. -/
def readFields
    (read : Reader) :
    List (String × Value) →
      Except Complaint (List (String × Value))
  | [] => .ok []
  | (key, item) :: rest => do
      let value ← read item
      let more ← readFields read rest
      return (key, value) :: more

/- A name out of a list. -/
def readName
    (names : List String)
    (name : String) : Except Complaint Value :=
  if names.contains name then .ok (.string name)
  else .error (.unknownVariant name names)

/-
  A choice: a name, or an object whose only key is the name
  and whose only value is null.
-/
def readChoice
    (names : List String) : Reader
  | .string name => readName names name
  | .object [(name, content)] => do
      let chosen ← readName names name
      match content with
      | .null => return chosen
      | value => refuse "unit" value
  | .object _ =>
      .error
        (.invalidValue .map "map with a single key")
  | value => refuse "string or map" value

/- The readers of the fields of a record. -/
abbrev FieldReader :=
  String × Reader × Option Value

/- The known fields of an object, in the object's order. -/
def readKnown
    (readers : List FieldReader) :
    List (String × Value) →
      Except Complaint (List (String × Value))
  | [] => .ok []
  | (key, item) :: rest =>
      match readers.lookup key with
      | none => readKnown readers rest
      | some (read, _) => do
          let value ← read item
          let more ← readKnown readers rest
          return (key, value) :: more

/- All fields of a record, with defaults where there are. -/
def complete
    (found : Fields) :
    List FieldReader →
      Except Complaint (List (String × Value))
  | [] => .ok []
  | (name, _, default) :: rest =>
      match (Fields.get? found name).or default with
      | none => .error (.missingField name)
      | some value => do
          let more ← complete found rest
          return (name, value) :: more

/- The fields of a record from a list in their order. -/
def readInOrder
    (shortage : Complaint) :
    List FieldReader → List Value →
      Except Complaint (List (String × Value))
  | [], _ => .ok []
  | (name, read, _) :: rest, item :: items => do
      let value ← read item
      let more ← readInOrder shortage rest items
      return (name, value) :: more
  | (name, _, default) :: rest, [] =>
      match default with
      | none => .error shortage
      | some value => do
          let more ← readInOrder shortage rest []
          return (name, value) :: more

/- How many fields come before a list of values ends. -/
def lengthComplaint
    (name : String)
    (readers : List FieldReader)
    (length : Nat) : Complaint :=
  .invalidLength length
    ("struct " ++ name ++ " with " ++
      integerText readers.length ++ " elements")

/- A record, from an object or from a list. -/
def readRecord
    (name : String)
    (readers : List FieldReader) : Reader
  | .object fields => do
      let found ← readKnown readers fields
      let all ← complete found readers
      return .object all
  | .array items => do
      let shortage :=
        lengthComplaint name readers items.length
      let all ← readInOrder shortage readers items
      if readers.length < items.length then
        throw
          (.invalidLength items.length
            "fewer elements in array")
      return .object all
  | value => refuse ("struct " ++ name) value

/- Fields in the order of their keys. -/
def sortFields
    (fields : Fields) : Fields :=
  fields.mergeSort fun a b => decide (a.1 ≤ b.1)

mutual

/- Read a value in a shape. -/
def read : Shape → Reader
  | string, value =>
      match value with
      | .string s => .ok (.string s)
      | value => refuse "a string" value
  | bool, value =>
      match value with
      | .bool b => .ok (.bool b)
      | value => refuse "a boolean" value
  | integer name low high, value =>
      readInteger name low high value
  | optional shape, value =>
      match value with
      | .null => .ok .null
      | value => read shape value
  | list shape, value =>
      match value with
      | .array items =>
          (readItems (read shape) items).map .array
      | value => refuse "a sequence" value
  | map shape, value =>
      match value with
      | .object fields =>
          (readFields (read shape) fields).map fun fields =>
            .object (sortFields fields)
      | value => refuse "a map" value
  | choice names, value => readChoice names value
  | record name fields, value =>
      readRecord name (readers fields) value

/- The readers of fields. -/
def readers :
    List (String × Shape × Option Value) →
      List FieldReader
  | [] => []
  | (name, shape, default) :: rest =>
      (name, read shape, default) :: readers rest

end

end Shape

end Transclusion
