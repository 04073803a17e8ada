import Transclusion.Config.Config
import Transclusion.Yaml.Reading

/-
  Configurations read straight from the items of a YAML
  text, without a structured value in between.

  Key definitions include:
    * `Transclusion.Yaml.Read.string`
    * `Transclusion.Yaml.Read.bool`
    * `Transclusion.Yaml.Read.choice`
    * `Transclusion.Yaml.Read.record`
    * `Transclusion.Config.ofYaml`

  The notation counts here: any scalar is a string as it is
  written, a tag can name a choice, and a value left out is
  a record without fields.
-/

------------------------------------------------------------
-- Scalars
------------------------------------------------------------

namespace Transclusion

namespace Yaml

namespace Read

/- Complain about the type of an item. -/
def refuse
    {α : Type}
    (expected : String)
    (kind : ItemKind) : Read α :=
  match kind with
  | .scalar tag text style =>
      match Scalar.resolve tag text style with
      | .ok scalar =>
          complain (.invalidType scalar.found expected)
      | .error complaint => complain complaint
  | .sequenceStart _ =>
      complain (.invalidType .sequence expected)
  | .mappingStart _ =>
      complain (.invalidType .map expected)
  | _ => throw .endOfText

/- A string, as it is written. -/
def string
    (expected : String)
    (document : Document)
    (place : Place) : Read String :=
  content document place fun place item =>
    located item.mark place do
      match item.kind with
      | .scalar _ text _ => return String.ofList text
      | kind => refuse expected kind

/- A Boolean value, without quotes or tagged as one. -/
def bool
    (document : Document)
    (place : Place) : Read Bool :=
  content document place fun place item =>
    located item.mark place do
      match item.kind with
      | .scalar tag text style =>
          let isWord :=
            style == .plain ||
              (style == .literal &&
                tag.bind CoreTag.ofTag? == some .bool)
          match isWord, bool? text with
          | true, some b => return b
          | _, _ => refuse "a boolean" item.kind
      | kind => refuse "a boolean" kind

end Read

end Yaml

end Transclusion

------------------------------------------------------------
-- Choices
------------------------------------------------------------

namespace Transclusion

namespace Yaml

namespace Read

/- A name out of a list. -/
def knownName
    (names : List String)
    (name : String) : Read String :=
  if names.contains name then return name
  else complain (.unknownVariant name names)

/-
  A choice whose name is a tag.  Only nothing may be tagged,
  and what else a scalar says does not matter.
-/
def taggedChoice
    (names : List String)
    (place : Place)
    (item : Item)
    (tag : String) : Read String := do
  let name ← knownName names tag
  located item.mark place do
    match item.kind with
    | .scalar _ text style =>
        if style = .plain && (text = [] || isNullWord text)
        then
          return name
        else
          complain
            (.invalidValue (.string (String.ofList text))
              "null")
    | kind => refuse "unit" kind

/- A choice: a scalar that is the name, or a tag. -/
def choice
    (names : List String)
    (document : Document)
    (place : Place) : Read String :=
  content document place fun place item =>
    let untagged (found : Found) : Read String :=
      located item.mark place
        (complain
          (.invalidType found
            "a YAML tag starting with '!'"))
    match item.kind with
    | .scalar tag text _ =>
        match TagText.local? tag with
        | some tag => taggedChoice names place item tag
        | none =>
            located item.mark place
              (knownName names (String.ofList text))
    | .sequenceStart tag =>
        match TagText.local? tag with
        | some tag => taggedChoice names place item tag
        | none => untagged .sequence
    | .mappingStart tag =>
        match TagText.local? tag with
        | some tag => taggedChoice names place item tag
        | none => untagged .map
    | _ => throw .endOfText

end Read

end Yaml

end Transclusion

------------------------------------------------------------
-- Records
------------------------------------------------------------

namespace Transclusion

namespace Yaml

namespace Read

/- The readers of the fields of a record. -/
abbrev FieldReader :=
  String × (Document → Place → Read Value)

/- The known fields of a mapping behind given ones. -/
def entries
    (readers : List FieldReader)
    (document : Document)
    (place : Place) :
    Nat → Fields → Read (List (String × Value))
  | 0, found => return found
  | fuel + 1, found => do
      let first ← peek document
      match first.kind with
      | .mappingEnd =>
          let _ ← next document
          return found
      | kind =>
          let key ← string "field identifier" document place
          match readers.lookup key with
          | none =>
              ignore document
              entries readers document place fuel found
          | some read =>
              if Fields.hasKey found key then
                complain (.duplicateField key)
              let inner : Place :=
                match kind with
                | .scalar _ text _ =>
                    .entry place (String.ofList text)
                | _ => .unknown place
              let value ← read document inner
              entries readers document place fuel
                (found ++ [(key, value)])

/-
  The fields that a record has.  A value left out has none.
-/
def record
    (name : String)
    (readers : List FieldReader)
    (document : Document)
    (place : Place) : Read (List (String × Value)) :=
  content document place fun place item =>
    located item.mark place do
      let refused := refuse ("struct " ++ name) item.kind
      match item.kind with
      | .mappingStart _ =>
          entries readers document place
            (document.size + 1) []
      | .scalar _ text style =>
          if text = [] && style = .plain then return []
          else refused
      | _ => refused

end Read

end Yaml

end Transclusion

------------------------------------------------------------
-- Configurations
------------------------------------------------------------

namespace Transclusion

namespace MergeOptions

/- The readers of the fields of options. -/
def fieldReaders : List Yaml.Read.FieldReader :=
  [("key_policy", fun document place =>
      Value.string <$>
        Yaml.Read.choice
          (KeyPolicy.all.map KeyPolicy.name)
          document place),
    ("array_policy", fun document place =>
      Value.string <$>
        Yaml.Read.choice
          (ArrayPolicy.all.map ArrayPolicy.name)
          document place),
    ("recursive", fun document place =>
      Value.bool <$> Yaml.Read.bool document place)]

end MergeOptions

namespace Config

/- The readers of the fields of a configuration. -/
def fieldReaders : List Yaml.Read.FieldReader :=
  [("includes_key", fun document place =>
      Value.string <$>
        Yaml.Read.string "a string" document place),
    ("lenient_root", fun document place =>
      Value.bool <$> Yaml.Read.bool document place),
    ("merge", fun document place =>
      Value.object <$>
        Yaml.Read.record "MergeOptions"
          MergeOptions.fieldReaders document place)]

/-
  The configuration that a YAML text holds, read straight
  from its notation.
-/
def ofYaml
    (text : String) : Except Yaml.ReadError Config :=
  Yaml.Read.wholeText
    (fun document => do
      if document.isEmpty then return {}
      else
        let fields ←
          Yaml.Read.record "ResolverConfig" fieldReaders
            document .root
        return ofFields fields)
    text

end Config

end Transclusion
