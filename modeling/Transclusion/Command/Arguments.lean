import Transclusion.Command.Command

/-
  Commands as they are typed.

  Key definitions include:
    * `Transclusion.Argument`
    * `Transclusion.Usage`
    * `Transclusion.Usage.read`
    * `Transclusion.Invocation.ofArguments`

  Options stand anywhere behind the name of their command,
  each at most once, and have full names only.  The switch
  for telling more may be repeated, before or behind the
  name of the command.
-/

------------------------------------------------------------
-- Arguments
------------------------------------------------------------

namespace Transclusion

/- The forms of an argument. -/
inductive Argument where
  | word (text : String)
  | separator
  | option (name : String) (value : Option String)
  | letters (letters : List Char)
  deriving DecidableEq

namespace Argument

/- The form of an argument.  A lone dash is a word. -/
def ofText
    (text : String) : Argument :=
  match text.toList with
  | ['-', '-'] => .separator
  | '-' :: '-' :: rest =>
      let name := rest.takeWhile (· ≠ '=')
      match rest.dropWhile (· ≠ '=') with
      | [] => .option (String.ofList name) none
      | _ :: value =>
          .option (String.ofList name)
            (some (String.ofList value))
  | '-' :: c :: rest => .letters (c :: rest)
  | _ => .word text

end Argument

/- Why arguments do not lead to a command. -/
inductive Stop where
  | misuse
  | version
  | help
  deriving DecidableEq

end Transclusion

------------------------------------------------------------
-- Usage of a Command
------------------------------------------------------------

namespace Transclusion

/-
  What a command takes: so many words, options with a check
  of their values, and switches.
-/
structure Usage where
  words : Nat
  options : List (String × (String → Bool))
  switches : List String

/- The arguments that were given to a command. -/
structure Given where
  words : List String := []
  options : List (String × String) := []
  switches : List String := []
  verbosity : Nat := 0
  deriving DecidableEq

namespace Usage

/- Take one word more.  No word is empty. -/
def addWord
    (usage : Usage)
    (given : Given)
    (word : String) : Except Stop Given :=
  if word = "" ∨ usage.words ≤ given.words.length then
    .error .misuse
  else
    .ok { given with words := given.words ++ [word] }

/- Take an option with its value. -/
def addOption
    (given : Given)
    (name : String)
    (check : String → Bool)
    (value : String) : Except Stop Given :=
  if check value && (given.options.lookup name).isNone then
    .ok
      { given with
        options := given.options ++ [(name, value)] }
  else .error .misuse

/- Take a switch. -/
def addSwitch
    (usage : Usage)
    (given : Given)
    (name : String) : Except Stop Given :=
  if name = "help" then .error .help
  else if name = "verbose" then
    .ok { given with verbosity := given.verbosity + 1 }
  else if name ∈ usage.switches ∧ name ∉ given.switches then
    .ok { given with switches := given.switches ++ [name] }
  else .error .misuse

/- Take the letters behind one dash. -/
def addLetters
    (given : Given) : List Char → Except Stop Given
  | [] => .ok given
  | 'v' :: rest =>
      addLetters
        { given with verbosity := given.verbosity + 1 } rest
  | 'h' :: _ => .error .help
  | _ => .error .misuse

/-
  Read the arguments of a command.  Behind two dashes there
  are only words.
-/
def read
    (usage : Usage) :
    Given → List String → Except Stop Given
  | given, [] => .ok given
  | given, argument :: rest =>
      match Argument.ofText argument with
      | .separator => rest.foldlM usage.addWord given
      | .word word =>
          match usage.addWord given word with
          | .error stop => .error stop
          | .ok given => usage.read given rest
      | .letters letters =>
          match addLetters given letters with
          | .error stop => .error stop
          | .ok given => usage.read given rest
      | .option name value =>
          match usage.options.lookup name, value with
          | some check, some value =>
              match addOption given name check value with
              | .error stop => .error stop
              | .ok given => usage.read given rest
          | some check, none =>
              match rest with
              | [] => .error .misuse
              | next :: rest =>
                  match Argument.ofText next with
                  | .word value =>
                      match
                        addOption given name check value with
                      | .error stop => .error stop
                      | .ok given => usage.read given rest
                  | _ => .error .misuse
          | none, some _ => .error .misuse
          | none, none =>
              match usage.addSwitch given name with
              | .error stop => .error stop
              | .ok given => usage.read given rest

end Usage

end Transclusion

------------------------------------------------------------
-- Commands by Name
------------------------------------------------------------

namespace Transclusion

namespace KeyPolicy

/- The name of a policy on the command line. -/
def shortName : KeyPolicy → String
  | .first => "first"
  | .second => "second"
  | .error => "error"

/- The policy of a name on the command line. -/
def ofShortName?
    (name : String) : Option KeyPolicy :=
  all.find? fun policy => policy.shortName = name

end KeyPolicy

namespace ArrayPolicy

/- The name of a policy on the command line. -/
def shortName : ArrayPolicy → String
  | .appendSecond => "append"
  | .appendFirst => "prepend"
  | .first => "first"
  | .second => "second"
  | .byKey => "key-policy"

/- The policy of a name on the command line. -/
def ofShortName?
    (name : String) : Option ArrayPolicy :=
  all.find? fun policy => policy.shortName = name

end ArrayPolicy

/- The kinds of commands. -/
inductive CommandKind where
  | resolve
  | parse
  | merge
  deriving DecidableEq

namespace CommandKind

/- All kinds. -/
def all : List CommandKind :=
  [.resolve, .parse, .merge]

/- The name of a kind. -/
def name : CommandKind → String
  | resolve => "resolve"
  | parse => "parse"
  | merge => "merge"

/- The kind of a name. -/
def ofName?
    (name : String) : Option CommandKind :=
  all.find? fun kind => kind.name = name

/- The option for the notation of the output. -/
def formatOption : String × (String → Bool) :=
  ("format", fun name => (Format.ofName? name).isSome)

/- What a command of a kind takes. -/
def usage : CommandKind → Usage
  | resolve =>
      { words := 1
        options :=
          [formatOption, ("output", (· ≠ "")),
            ("config", (· ≠ ""))]
        switches := ["strict"] }
  | parse =>
      { words := 1, options := [formatOption], switches := [] }
  | merge =>
      { words := 2
        options :=
          [formatOption,
            ("key-policy", fun name =>
              (KeyPolicy.ofShortName? name).isSome),
            ("array-policy", fun name =>
              (ArrayPolicy.ofShortName? name).isSome)]
        switches := ["shallow"] }

end CommandKind

namespace Given

/- The notation that was asked for. -/
def format
    (given : Given) : Format :=
  ((given.options.lookup "format").bind
    Format.ofName?).getD .yaml

/- The policies that were asked for. -/
def mergeOptions
    (given : Given) : MergeOptions :=
  { keyPolicy :=
      ((given.options.lookup "key-policy").bind
        KeyPolicy.ofShortName?).getD .second
    arrayPolicy :=
      ((given.options.lookup "array-policy").bind
        ArrayPolicy.ofShortName?).getD .appendSecond
    recursive := "shallow" ∉ given.switches }

/- The command that was given, if no word is missing. -/
def command?
    (given : Given) : CommandKind → Option Command
  | .resolve =>
      match given.words with
      | [path] =>
          some
            (.resolve path given.format
              (given.options.lookup "output")
              (given.options.lookup "config")
              ("strict" ∈ given.switches))
      | _ => none
  | .parse =>
      match given.words with
      | [path] => some (.parse path given.format)
      | _ => none
  | .merge =>
      match given.words with
      | [first, second] =>
          some
            (.merge first second given.mergeOptions
              given.format)
      | _ => none

end Given

end Transclusion

------------------------------------------------------------
-- Invocations
------------------------------------------------------------

namespace Transclusion

namespace Invocation

/-
  The invocation of a command of a kind.  What its own
  arguments say about telling more counts, if they say so.
-/
def ofKind
    (kind : CommandKind)
    (verbosity : Nat)
    (arguments : List String) :
    Except Stop Invocation :=
  match kind.usage.read {} arguments with
  | .error stop => .error stop
  | .ok given =>
      match given.command? kind with
      | none => .error .misuse
      | some command =>
          .ok
            { verbosity :=
                if given.verbosity = 0 then verbosity
                else given.verbosity
              command := command }

/- Take the letters behind one dash, before any command. -/
def leadingLetters :
    Nat → List Char → Except Stop Nat
  | verbosity, [] => .ok verbosity
  | verbosity, 'v' :: rest =>
      leadingLetters (verbosity + 1) rest
  | _, 'V' :: _ => .error .version
  | _, 'h' :: _ => .error .help
  | _, _ => .error .misuse

/- What follows the word that asks for help. -/
def helpStop
    (topics : List String) : Stop :=
  match topics with
  | [] => .help
  | [topic] =>
      if topic = "help" ∨
          (CommandKind.ofName? topic).isSome then .help
      else .misuse
  | _ => .misuse

/- Read arguments up to the name of a command. -/
def ofArgumentsAfter :
    Nat → List String → Except Stop Invocation
  | _, [] => .error .misuse
  | verbosity, argument :: rest =>
      match Argument.ofText argument with
      | .word word =>
          match CommandKind.ofName? word with
          | some kind => ofKind kind verbosity rest
          | none =>
              if word = "help" then .error (helpStop rest)
              else .error .misuse
      | .letters letters =>
          match leadingLetters verbosity letters with
          | .error stop => .error stop
          | .ok verbosity => ofArgumentsAfter verbosity rest
      | .option "verbose" none =>
          ofArgumentsAfter (verbosity + 1) rest
      | .option "version" none => .error .version
      | .option "help" none => .error .help
      | _ => .error .misuse

/- The invocation that arguments spell. -/
def ofArguments
    (arguments : List String) :
    Except Stop Invocation :=
  ofArgumentsAfter 0 arguments

end Invocation

end Transclusion
