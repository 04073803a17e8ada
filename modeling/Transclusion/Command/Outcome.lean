import Transclusion.Command.Arguments
import Transclusion.Resolve.Error

/-
  How a command ends.

  Key definitions include:
    * `Transclusion.Delivery`
    * `Transclusion.Outcome`
    * `Transclusion.Outcome.delivered`
    * `Transclusion.Outcome.ofStop`

  What a command writes to a file is handed over as part of
  its outcome, which is settled once that has been tried.
-/

------------------------------------------------------------
-- Outcomes
------------------------------------------------------------

namespace Transclusion

/- A text on its way to a file. -/
structure Delivery where
  path : String
  text : String
  deriving DecidableEq

/- Why a text does not get into its file. -/
inductive DeliveryFault where
  | directory (path : String) (fault : Fault)
  | file (path : String) (fault : Fault)
  deriving DecidableEq

/- What is said about a text that is not delivered. -/
def DeliveryFault.message : DeliveryFault → String
  | directory path fault =>
      "Failed to create output directory '" ++ path ++
        "': " ++ fault.message
  | file path fault =>
      "Failed to write '" ++ path ++ "': " ++ fault.message

/-
  How a command ends: its output, what it tells, its status
  and a text to deliver.
-/
structure Outcome where
  output : String := ""
  messages : String := ""
  status : Nat := 0
  delivery : Option Delivery := none
  deriving DecidableEq

namespace Outcome

/- An outcome that only tells of a failure. -/
def failed
    (told message : String) : Outcome :=
  { messages := told ++ "error: " ++ message ++ "\n"
    status := 1 }

/- The lines around the place of a failure. -/
def excerpt
    (error : Option ParseError) : String :=
  match error with
  | none => ""
  | some error => error.snippet 2

/- The outcome of a failed request. -/
def ofFailure
    (told : String)
    (failure : Failure) : Outcome :=
  failed (told ++ excerpt failure.parseError?)
    failure.message

/- The outcome once its text has been delivered or not. -/
def delivered
    (outcome : Outcome)
    (result : Except DeliveryFault Unit) : Outcome :=
  match result with
  | .ok () => { outcome with delivery := none }
  | .error fault => failed outcome.messages fault.message

/- How to use the program. -/
def usageText : String :=
  "Usage: yaml-include [-v]... resolve PATH " ++
    "[--format yaml|json] [--output PATH] " ++
    "[--config PATH] [--strict]\n" ++
    "       yaml-include [-v]... parse PATH " ++
    "[--format yaml|json]\n" ++
    "       yaml-include [-v]... merge PATH PATH " ++
    "[--key-policy first|second|error] [--array-policy " ++
    "append|prepend|first|second|key-policy] " ++
    "[--shallow] [--format yaml|json]\n"

/- The outcome of arguments that lead to no command. -/
def ofStop : Stop → Outcome
  | .misuse => { messages := usageText, status := 2 }
  | .version => { output := "yaml-include 0.1.0\n" }
  | .help => { output := usageText }

end Outcome

end Transclusion
