import Transclusion.Yaml.Token.Stream

/-
  The events of a YAML text: its nodes in the order in which
  they begin and end.

  Key definitions include:
    * `Transclusion.Yaml.Properties`
    * `Transclusion.Yaml.EventKind`
    * `Transclusion.Yaml.Event`
-/

------------------------------------------------------------
-- Events
------------------------------------------------------------

namespace Transclusion

namespace Yaml

/- What may stand in front of a node. -/
structure Properties where
  anchor : Option (List Char) := none
  tag : Option TagText := none
  deriving DecidableEq

/- What an event is. -/
inductive EventKind where
  | streamStart
  | streamEnd
  | documentStart
  | documentEnd
  | aliasOf (name : List Char)
  | scalar
      (properties : Properties)
      (text : List Char)
      (style : ScalarStyle)
  | sequenceStart (properties : Properties)
  | sequenceEnd
  | mappingStart (properties : Properties)
  | mappingEnd
  deriving DecidableEq

/- An event and the mark at which it begins. -/
structure Event where
  kind : EventKind
  mark : Mark
  deriving DecidableEq

end Yaml

end Transclusion
