import Transclusion.Config.Config
import Transclusion.Value.Json
import Transclusion.Value.Yaml

/-
  What the command line asks for.

  Key definitions include:
    * `Transclusion.Format`
    * `Transclusion.Command`
    * `Transclusion.Invocation`
-/

------------------------------------------------------------
-- Formats
------------------------------------------------------------

namespace Transclusion

/- The notation in which a document is written. -/
inductive Format where
  | json
  | yaml
  deriving DecidableEq

namespace Format

/- All notations. -/
def all : List Format :=
  [.json, .yaml]

/- The name of a notation. -/
def name : Format → String
  | json => "json"
  | yaml => "yaml"

/- The notation of a name. -/
def ofName?
    (name : String) : Option Format :=
  all.find? fun format => format.name = name

/- Write a value, with a line feed at its end. -/
def write
    (format : Format)
    (value : Value) : String :=
  match format with
  | json => value.indentedJson ++ "\n"
  | yaml => value.yaml

end Format

end Transclusion

------------------------------------------------------------
-- Commands
------------------------------------------------------------

namespace Transclusion

/-
  The things to do: resolve a document with all that it
  includes, parse a document on its own, or merge two.
-/
inductive Command where
  | resolve
      (path : String)
      (format : Format)
      (output : Option String)
      (config : Option String)
      (strict : Bool)
  | parse (path : String) (format : Format)
  | merge
      (first second : String)
      (options : MergeOptions)
      (format : Format)
  deriving DecidableEq

/- A command, and how much to tell on the way. -/
structure Invocation where
  verbosity : Nat
  command : Command
  deriving DecidableEq

end Transclusion
