import Transclusion.Yaml.Node.Node
import Transclusion.Yaml.Reading

/-
  The tree of a YAML text.

  Key definitions include:
    * `Transclusion.Yaml.Node.maxDepth`
    * `Transclusion.Yaml.Node.read`
    * `Transclusion.Yaml.Node.ofText`

  Collections are nested up to a fixed depth, aliases
  followed included, so that the reading ends for anchors
  that contain their own aliases.
-/

------------------------------------------------------------
-- Duplicate Keys
------------------------------------------------------------

namespace Transclusion

namespace Yaml

namespace Node

/- The words for a key that is there twice. -/
def duplicateText : Node → String
  | .null => "with null key"
  | .bool b => "with key `" ++ boolText b ++ "`"
  | .number n => "with key " ++ n.text
  | .string s => "with key " ++ Text.quoted s
  | _ => "in YAML map"

end Node

end Yaml

end Transclusion

------------------------------------------------------------
-- Reading Trees
------------------------------------------------------------

namespace Transclusion

namespace Yaml

namespace Node

/- How deep collections may be nested. -/
def maxDepth : Nat :=
  128

/- The items of a sequence, from an index on. -/
def readItems
    (document : Document)
    (inner : Place → Read Node)
    (place : Place) :
    Nat → Nat → Read (List Node)
  | 0, _ => return []
  | fuel + 1, index => do
      match (← Read.peek document).kind with
      | .sequenceEnd =>
          let _ ← Read.next document
          return []
      | _ =>
          let node ← inner (.item place index)
          let more ←
            readItems document inner place fuel (index + 1)
          return node :: more

/-
  The entries of a mapping behind those of given keys.  Only
  a scalar has a name by which its value is placed.
-/
def readEntries
    (document : Document)
    (inner : Place → Read Node)
    (place : Place) :
    Nat → List Node → Read (List (Node × Node))
  | 0, _ => return []
  | fuel + 1, seen => do
      let valuePlace (kind : ItemKind) : Place :=
        match kind with
        | .scalar _ text _ =>
            .entry place (String.ofList text)
        | _ => .unknown place
      match (← Read.peek document).kind with
      | .mappingEnd =>
          let _ ← Read.next document
          return []
      | kind =>
          let key ← inner place
          match seen.find? (·.same key) with
          | some earlier =>
              Read.complain
                (.duplicateKey earlier.duplicateText)
          | none =>
              let value ← inner (valuePlace kind)
              let more ←
                readEntries document inner place fuel
                  (key :: seen)
              return (key, value) :: more

/-
  The tree that begins with an item, where `inner` reads the
  trees inside it, if any may be.
-/
def readContent
    (document : Document)
    (inner : Option (Place → Read Node))
    (place : Place)
    (item : Item) : Read Node :=
  Read.located item.mark place do
    let fuel := document.size + 1
    let name (tag : Option TagText) (node : Node) : Node :=
      match TagText.local? tag with
      | some tag => .tagged tag node
      | none => node
    let within : Read (Place → Read Node) :=
      match inner with
      | some read => return read
      | none => throw (.tooDeep item.mark)
    match item.kind with
    | .scalar tag text style =>
        let isNamed := (TagText.local? tag).isSome
        let node :=
          (Scalar.resolve
            (if isNamed then none else tag) text style).bind
              ofScalar
        match node with
        | .ok node => return name tag node
        | .error complaint => Read.complain complaint
    | .sequenceStart tag =>
        let read ← within
        let items ← readItems document read place fuel 0
        return name tag (.sequence items)
    | .mappingStart tag =>
        let read ← within
        let entries ←
          readEntries document read place fuel []
        return name tag (.mapping entries)
    | _ => throw .endOfText

/- The tree that comes next, nested at most so deep. -/
def read
    (document : Document) : Nat → Place → Read Node
  | 0, place =>
      Read.content document place
        (readContent document none)
  | depth + 1, place =>
      Read.content document place
        (readContent document (some (read document depth)))

/- The tree of a text.  A text without a node is null. -/
def ofText
    (text : String) : Except ReadError Node :=
  Read.wholeText
    (fun document =>
      if document.isEmpty then return .null
      else read document maxDepth .root)
    text

end Node

end Yaml

end Transclusion
