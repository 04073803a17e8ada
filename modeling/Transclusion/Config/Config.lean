import Transclusion.Document
import Transclusion.Merge
import Transclusion.Reading.Shape
import Transclusion.Value.Yaml

/-
  The configuration of a resolution.

  Key definitions include:
    * `Transclusion.Config`
    * `Transclusion.Config.shape`
    * `Transclusion.Config.ofValue`
    * `Transclusion.Config.toValue`
    * `Transclusion.Config.ofText`

  Every setting has a default, so that a configuration may
  leave any of them out.
-/

------------------------------------------------------------
-- Configurations
------------------------------------------------------------

namespace Transclusion

/-
  The settings of a resolution: the key of the directive
  that lists the included documents, whether a root document
  that cannot be read counts as empty, and how documents are
  merged.
-/
structure Config where
  includesKey : String := "includes"
  lenientRoot : Bool := true
  merge : MergeOptions := {}
  deriving DecidableEq

namespace Config

/- The defaults, but with a root that has to be readable. -/
def strict : Config :=
  { lenientRoot := false }

end Config

end Transclusion

------------------------------------------------------------
-- Names of Policies
------------------------------------------------------------

namespace Transclusion

namespace KeyPolicy

/- All policies. -/
def all : List KeyPolicy :=
  [.first, .second, .error]

/- The name of a policy in configurations. -/
def name : KeyPolicy → String
  | .first => "value_from_first"
  | .second => "value_from_second"
  | .error => "error"

/- The policy of a name. -/
def ofName?
    (name : String) : Option KeyPolicy :=
  all.find? fun policy => policy.name = name

end KeyPolicy

namespace ArrayPolicy

/- All policies. -/
def all : List ArrayPolicy :=
  [.appendSecond, .appendFirst, .first, .second, .byKey]

/- The name of a policy in configurations. -/
def name : ArrayPolicy → String
  | .appendSecond => "append_second_to_first"
  | .appendFirst => "append_first_to_second"
  | .first => "value_from_first"
  | .second => "value_from_second"
  | .byKey => "use_key_policy"

/- The policy of a name. -/
def ofName?
    (name : String) : Option ArrayPolicy :=
  all.find? fun policy => policy.name = name

end ArrayPolicy

end Transclusion

------------------------------------------------------------
-- Values of Configurations
------------------------------------------------------------

namespace Transclusion

namespace MergeOptions

/- The options as a structured value. -/
def toValue
    (options : MergeOptions) : Value :=
  .object
    [("key_policy", .string options.keyPolicy.name),
      ("array_policy", .string options.arrayPolicy.name),
      ("recursive", .bool options.recursive)]

/- The shape of values that stand for options. -/
def shape : Shape :=
  .record "MergeOptions"
    [("key_policy",
        .choice (KeyPolicy.all.map KeyPolicy.name),
        some (.string KeyPolicy.second.name)),
      ("array_policy",
        .choice (ArrayPolicy.all.map ArrayPolicy.name),
        some (.string ArrayPolicy.appendSecond.name)),
      ("recursive", .bool, some (.bool true))]

/-
  The options that the fields of a value stand for, with
  defaults for those that are missing.
-/
def ofFields
    (fields : Fields) : MergeOptions :=
  let name? (key : String) : Option String :=
    (Fields.get? fields key).bind Value.string?
  let defaults : MergeOptions := {}
  { keyPolicy :=
      ((name? "key_policy").bind KeyPolicy.ofName?).getD
        defaults.keyPolicy
    arrayPolicy :=
      ((name? "array_policy").bind
        ArrayPolicy.ofName?).getD defaults.arrayPolicy
    recursive :=
      match Fields.get? fields "recursive" with
      | some (.bool b) => b
      | _ => defaults.recursive }

end MergeOptions

namespace Config

/- The configuration as a structured value. -/
def toValue
    (config : Config) : Value :=
  .object
    [("includes_key", .string config.includesKey),
      ("lenient_root", .bool config.lenientRoot),
      ("merge", config.merge.toValue)]

/- The shape of values that stand for configurations. -/
def shape : Shape :=
  let defaults : Config := {}
  .record "ResolverConfig"
    [("includes_key", .string,
        some (.string defaults.includesKey)),
      ("lenient_root", .bool,
        some (.bool defaults.lenientRoot)),
      ("merge", MergeOptions.shape,
        some defaults.merge.toValue)]

/-
  The configuration that the fields of a value stand for,
  with defaults for those that are missing.
-/
def ofFields
    (fields : Fields) : Config :=
  let defaults : Config := {}
  { includesKey :=
      ((Fields.get? fields "includes_key").bind
        Value.string?).getD defaults.includesKey
    lenientRoot :=
      match Fields.get? fields "lenient_root" with
      | some (.bool b) => b
      | _ => defaults.lenientRoot
    merge :=
      match Fields.get? fields "merge" with
      | some (.object options) =>
          MergeOptions.ofFields options
      | _ => defaults.merge }

/- The configuration that a value stands for. -/
def ofValue
    (value : Value) : Except Complaint Config := do
  match ← shape.read value with
  | .object fields => return ofFields fields
  | _ => return {}

/- The text of a configuration. -/
def text
    (config : Config) : String :=
  config.toValue.yaml

end Config

end Transclusion

------------------------------------------------------------
-- Loading
------------------------------------------------------------

namespace Transclusion

/- Read a text as a value of a shape. -/
def parseTextAs
    (shape : Shape)
    (text : String) : Except ParseError Value := do
  let value ← parseText text
  (shape.read value).mapError fun complaint =>
    { message := complaint.message Wording.value
      source := text }

namespace Config

/-
  The configuration that a text holds.  A text without
  content holds the defaults.
-/
def ofText
    (text : String) : Except ParseError Config := do
  match ← parseText text with
  | .null => return {}
  | value =>
      (ofValue value).mapError fun complaint =>
        { message := complaint.message Wording.value
          source := text }

end Config

end Transclusion
