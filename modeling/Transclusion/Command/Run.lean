import Transclusion.Command.Command
import Transclusion.Command.Log
import Transclusion.Command.Outcome
import Transclusion.Config.Stored
import Transclusion.Source.Disk

/-
  What a command does.

  Key definitions include:
    * `Transclusion.Reader`
    * `Transclusion.Invocation.run`
    * `Transclusion.Invocation.inputs`

  A command reads texts and comes to an outcome.
-/

------------------------------------------------------------
-- Readers
------------------------------------------------------------

namespace Transclusion

/- Where a command reads: texts and a working directory. -/
structure Reader where
  read : String → Except Fault String
  directory : Except Fault CanonicalPath

namespace Disk

/- The reader of a disk. -/
def reader
    (disk : Disk) : Reader where
  read := disk.read
  directory := disk.currentDirectory

end Disk

end Transclusion

------------------------------------------------------------
-- Commands
------------------------------------------------------------

namespace Transclusion

namespace MergeOptions

/- The policies as they stand in the log. -/
def logText
    (options : MergeOptions) : String :=
  let keyPolicy :=
    match options.keyPolicy with
    | .first => "ValueFromFirst"
    | .second => "ValueFromSecond"
    | .error => "Error"
  let arrayPolicy :=
    match options.arrayPolicy with
    | .appendSecond => "AppendSecondToFirst"
    | .appendFirst => "AppendFirstToSecond"
    | .first => "ValueFromFirst"
    | .second => "ValueFromSecond"
    | .byKey => "UseKeyPolicy"
  "MergeOptions \x7b key_policy: " ++ keyPolicy ++
    ", array_policy: " ++ arrayPolicy ++ ", recursive: " ++
    (if options.recursive then "true" else "false") ++
    " \x7d"

end MergeOptions

namespace Reader

/- A document on its own, or the outcome of a failure. -/
def document
    (reader : Reader)
    (path : String) : Except Outcome Value :=
  match reader.read path with
  | .error fault =>
      .error
        (.failed ""
          ("Failed to read '" ++ path ++ "': " ++
            fault.message))
  | .ok text =>
      (parseText text).mapError fun error =>
        .failed (Outcome.excerpt (some error))
          ("Failed to parse '" ++ path ++ "': " ++
            error.message)

/- The configuration to resolve with. -/
def config
    (reader : Reader)
    (path : Option String)
    (strict : Bool) : Except Failure Config := do
  let config ←
    match path with
    | none => .ok {}
    | some path => Config.load reader.read path
  return if strict then { config with lenientRoot := false }
    else config

/- The resolver of the documents that can be read. -/
def resolver
    (reader : Reader)
    (config : Config) : Resolver :=
  .ofReader reader.read reader.directory config

/- Resolve a document. -/
def runResolve
    (reader : Reader)
    (verbosity : Nat)
    (path : String)
    (format : Format)
    (output config : Option String)
    (strict : Bool) : Outcome :=
  match reader.config config strict with
  | .error failure => .ofFailure "" failure
  | .ok config =>
      let (steps, result) :=
        (reader.resolver config).trace path
      let told :=
        shownLines verbosity
          (steps.filterMap LogLine.ofStep?)
      match result with
      | .error failure => .ofFailure told failure
      | .ok resolution =>
          let warnings := resolution.warnings.map
            fun warning =>
              "warning: " ++ warning.message ++ "\n"
          let summary : LogLine :=
            { level := .information
              message := "resolved document"
              fields :=
                [("files",
                    integerText resolution.files.length),
                  ("root", path)] }
          let messages := told ++ String.join warnings ++
            shownLines verbosity [summary]
          let text := format.write resolution.document
          match output with
          | none => { output := text, messages }
          | some path =>
              { messages, delivery := some ⟨path, text⟩ }

/- Parse a document. -/
def runParse
    (reader : Reader)
    (path : String)
    (format : Format) : Outcome :=
  match reader.document path with
  | .error outcome => outcome
  | .ok value => { output := format.write value }

/- Merge two documents. -/
def runMerge
    (reader : Reader)
    (verbosity : Nat)
    (first second : String)
    (options : MergeOptions)
    (format : Format) : Outcome :=
  match reader.document first with
  | .error outcome => outcome
  | .ok first =>
      match reader.document second with
      | .error outcome => outcome
      | .ok second =>
          let messages := shownLines verbosity
            [{ level := .detail
               message := "merging documents"
               fields := [("options", options.logText)] }]
          match merge options first second with
          | .error conflict =>
              .failed messages conflict.message
          | .ok merged =>
              { output := format.write merged, messages }

/- The paths that are read to resolve a document. -/
def resolveInputs
    (reader : Reader)
    (path : String)
    (config : Option String)
    (strict : Bool) : List String :=
  config.toList ++
    match reader.config config strict with
    | .error _ => []
    | .ok config =>
        ((reader.resolver config).trace path).1.filterMap
          fun step =>
            match step with
            | .entered path _ => some path.text
            | _ => none

end Reader

end Transclusion

------------------------------------------------------------
-- Invocations
------------------------------------------------------------

namespace Transclusion

namespace Invocation

/- Do what was asked for. -/
def run
    (invocation : Invocation)
    (reader : Reader) : Outcome :=
  match invocation.command with
  | .resolve path format output config strict =>
      reader.runResolve invocation.verbosity path format
        output config strict
  | .parse path format => reader.runParse path format
  | .merge first second options format =>
      reader.runMerge invocation.verbosity first second
        options format

/- The paths that are read on the way, in order. -/
def inputs
    (invocation : Invocation)
    (reader : Reader) : List String :=
  match invocation.command with
  | .resolve path _ _ config strict =>
      reader.resolveInputs path config strict
  | .parse path _ => [path]
  | .merge first second _ _ =>
      match reader.document first with
      | .error _ => [first]
      | .ok _ => [first, second]

end Invocation

end Transclusion
