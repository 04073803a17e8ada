import Transclusion.Value.Json
import Transclusion.Yaml.Scalar

/-
  The trees that YAML texts describe, and the structured
  values that they become.

  Key definitions include:
    * `Transclusion.Yaml.YamlNumber`
    * `Transclusion.Yaml.Node`
    * `Transclusion.Yaml.Node.same`
    * `Transclusion.Yaml.Node.toValue`
    * `Transclusion.Yaml.Node.keyText`
    * `Transclusion.Yaml.Node.ofValue`

  A tree is wider than a structured value: any node can be a
  key, nodes can have tags, and numbers need not be finite.
  On the way to a value keys become texts, tags are dropped
  and the numbers that are not finite become nothing.
-/

------------------------------------------------------------
-- Numbers
------------------------------------------------------------

namespace Transclusion

namespace Yaml

/- A number of a tree. -/
inductive YamlNumber where
  | integer (n : Integer)
  | double (d : ExtendedDouble)
  deriving DecidableEq

namespace YamlNumber

/-
  Sameness of numbers: within one kind by value, where the
  undefined number is the same as itself.
-/
def same : YamlNumber → YamlNumber → Bool
  | .integer a, .integer b => decide (a = b)
  | .double (.finite a), .double (.finite b) => a.numEq b
  | .double a, .double b => decide (a = b)
  | _, _ => false

/- The text of a number. -/
def text : YamlNumber → String
  | .integer n => integerText n.value
  | .double (.finite d) => d.text Layout.yaml
  | .double (.infinity true) => "-.inf"
  | .double (.infinity false) => ".inf"
  | .double .notANumber => ".nan"

/- The number of a structured value, if it is finite. -/
def toNumber? : YamlNumber → Option Number
  | .integer n => some (.integer n)
  | .double (.finite d) => some (.double d)
  | _ => none

/- A number of a structured value as one of a tree. -/
def ofNumber : Number → YamlNumber
  | .integer n => .integer n
  | .double d => .double (.finite d)

end YamlNumber

end Yaml

end Transclusion

------------------------------------------------------------
-- Trees
------------------------------------------------------------

namespace Transclusion

namespace Yaml

/- The tree of a YAML text. -/
inductive Node where
  | null
  | bool (b : Bool)
  | number (n : YamlNumber)
  | string (s : String)
  | sequence (items : List Node)
  | mapping (entries : List (Node × Node))
  | tagged (tag : String) (node : Node)

namespace Node

instance : Inhabited Node :=
  ⟨.null⟩

mutual

/-
  Sameness of trees.  Two mappings are the same if they have
  equally many entries and each entry of the first has its
  like in the second; a mark in front of a tag's name counts
  for nothing.
-/
def same : Node → Node → Bool
  | .null, .null => true
  | .bool a, .bool b => a == b
  | .number a, .number b => a.same b
  | .string a, .string b => a == b
  | .sequence as, .sequence bs => sameItems as bs
  | .mapping as, .mapping bs =>
      as.length == bs.length && sameEntries as bs
  | .tagged s a, .tagged t b =>
      withoutMark s.toList == withoutMark t.toList &&
        same a b
  | _, _ => false

/- Sameness of lists, place by place. -/
def sameItems : List Node → List Node → Bool
  | [], [] => true
  | a :: as, b :: bs => same a b && sameItems as bs
  | _, _ => false

/- Each of the first entries has its like in the second. -/
def sameEntries :
    List (Node × Node) → List (Node × Node) → Bool
  | [], _ => true
  | (key, value) :: as, bs =>
      bs.any
          (fun entry =>
            same key entry.1 && same value entry.2) &&
        sameEntries as bs

end

/- The tree of a scalar, or what cannot be one. -/
def ofScalar : Scalar → Except Complaint Node
  | .null => .ok .null
  | .bool b => .ok (.bool b)
  | .integer n => .ok (.number (.integer n))
  | .double d => .ok (.number (.double d))
  | .string text => .ok (.string (String.ofList text))
  | .wideInteger n =>
      .error
        (.invalidType (.wideInteger n) "any YAML value")

end Node

end Yaml

end Transclusion

------------------------------------------------------------
-- Trees and Values
------------------------------------------------------------

namespace Transclusion

namespace Yaml

/- Two keys of one mapping that have one text. -/
structure KeyCollision where
  key : String
  deriving DecidableEq

namespace KeyCollision

/- What is said about a collision. -/
def message
    (collision : KeyCollision) : String :=
  "duplicate mapping key '" ++ collision.key ++
    "' after key conversion"

end KeyCollision

namespace Node

mutual

/- The structured value of a tree. -/
def toValue : Node → Except KeyCollision Value
  | .null => .ok .null
  | .bool b => .ok (.bool b)
  | .number n =>
      .ok (n.toNumber?.elim .null .number)
  | .string s => .ok (.string s)
  | .sequence items => (toItems items).map .array
  | .mapping entries => (toFields [] entries).map .object
  | .tagged _ node => toValue node

/- The structured values of a list of trees. -/
def toItems : List Node → Except KeyCollision (List Value)
  | [] => .ok []
  | node :: rest => do
      let value ← toValue node
      let more ← toItems rest
      return value :: more

/- The fields of a mapping behind those of given keys. -/
def toFields
    (seen : List String) :
    List (Node × Node) →
      Except KeyCollision (List (String × Value))
  | [] => .ok []
  | (key, node) :: rest => do
      let name ← keyText key
      let value ← toValue node
      if seen.contains name then
        throw ⟨name⟩
      let more ← toFields (name :: seen) rest
      return (name, value) :: more

/-
  The text of a key.  A collection is written as compact
  JSON.
-/
def keyText : Node → Except KeyCollision String
  | .null => .ok "null"
  | .bool b => .ok (boolText b)
  | .number n => .ok n.text
  | .string s => .ok s
  | .sequence items =>
      (toItems items).map fun values =>
        (Value.array values).compactJson
  | .mapping entries =>
      (toFields [] entries).map fun fields =>
        (Value.object fields).compactJson
  | .tagged _ node => keyText node

end

mutual

/- The tree of a structured value. -/
def ofValue : Value → Node
  | .null => .null
  | .bool b => .bool b
  | .number n => .number (YamlNumber.ofNumber n)
  | .string s => .string s
  | .array items => .sequence (ofItems items)
  | .object fields => .mapping (ofFields fields)

/- The trees of a list of values. -/
def ofItems : List Value → List Node
  | [] => []
  | value :: rest => ofValue value :: ofItems rest

/- The entries of the fields of an object. -/
def ofFields : List (String × Value) → List (Node × Node)
  | [] => []
  | (key, value) :: rest =>
      (.string key, ofValue value) :: ofFields rest

end

end Node

end Yaml

end Transclusion
