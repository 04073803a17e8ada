import Transclusion.Config.Config
import Transclusion.Resolve.Error

/-
  Resolution of documents that include others.

  Key definitions include:
    * `Transclusion.Step`
    * `Transclusion.Run`
    * `Transclusion.Config.split`
    * `Transclusion.resolveDocument`
    * `Transclusion.Resolution`
    * `Transclusion.Resolver`

  A document is the merge of its includes, in the order in
  which they are listed, and of its own content.  A document
  may be included many times, but never from inside itself.
-/

------------------------------------------------------------
-- Runs
------------------------------------------------------------

namespace Transclusion

/- What happens on the way. -/
inductive Step where
  | entered (path : CanonicalPath) (depth : Nat)
  | loaded (path : CanonicalPath)
  | warned (warning : Warning)
  deriving DecidableEq

/- The steps of a run and how it ends. -/
structure Run (α : Type) where
  steps : List Step
  result : Except ResolveError α

namespace Run

/- One run after another, if that ends well. -/
def andThen
    {α β : Type}
    (run : Run α)
    (next : α → Run β) : Run β :=
  match run.result with
  | .error error => ⟨run.steps, .error error⟩
  | .ok a =>
      ⟨run.steps ++ (next a).steps, (next a).result⟩

instance : Monad Run where
  pure a := ⟨[], .ok a⟩
  bind := andThen

/- A run of one step. -/
def step
    (step : Step) : Run Unit :=
  ⟨[step], .ok ()⟩

/- A run without steps. -/
def ofExcept
    {α : Type}
    (result : Except ResolveError α) : Run α :=
  ⟨[], result⟩

/- A run that fails. -/
def fail
    {α : Type}
    (error : ResolveError) : Run α :=
  ⟨[], .error error⟩

/- A run inside the resolution of another document. -/
def within
    {α : Type}
    (path : CanonicalPath)
    (run : Run α) : Run α :=
  ⟨run.steps, run.result.mapError (.within path)⟩

end Run

end Transclusion

------------------------------------------------------------
-- Directives
------------------------------------------------------------

namespace Transclusion

/-
  A document split into its references and its own content.
  A directive that is no list of strings counts as empty.
-/
structure Parts where
  references : List String
  wellFormed : Bool
  content : Value

/- Split a document at its directive. -/
def Config.split
    (config : Config) : Value → Parts
  | .object fields =>
      match Fields.get? fields config.includesKey with
      | none => ⟨[], true, .object fields⟩
      | some directive =>
          { references := directive.strings?.getD []
            wellFormed := directive.strings?.isSome
            content :=
              .object
                (Fields.erase fields config.includesKey) }
  | value => ⟨[], true, value⟩

end Transclusion

------------------------------------------------------------
-- Documents
------------------------------------------------------------

namespace Transclusion

/- Where the texts of documents come from. -/
abbrev Source :=
  CanonicalPath → Except Fault String

/-
  Load a document.  A root that cannot be read may count as
  missing.
-/
def loadDocument
    (source : Source)
    (config : Config)
    (path : CanonicalPath)
    (isRoot : Bool) : Run (Option Value) :=
  match source path with
  | .error fault =>
      if isRoot && config.lenientRoot then do
        Run.step (.warned (.missingRoot path fault))
        return none
      else
        Run.fail (.unreadable path fault)
  | .ok text =>
      match parseText text with
      | .error error => Run.fail (.malformed path error)
      | .ok value => do
          Run.step (.loaded path)
          return some value

/- Merge, for a document. -/
def mergeFor
    (config : Config)
    (path : CanonicalPath)
    (first second : Value) : Run Value :=
  Run.ofExcept
    ((merge config.merge first second).mapError
      (.conflict path))

/- Merge the documents that references name, in order. -/
def mergeIncludes
    (config : Config)
    (path : CanonicalPath)
    (resolve : CanonicalPath → Run Value) :
    List String → Value → Run Value
  | [], merged => return merged
  | reference :: rest, merged => do
      let included ←
        (resolve (resolveInclude path reference)).within
          path
      let merged ← mergeFor config path merged included
      mergeIncludes config path resolve rest merged

/-
  Resolve a document below those that include it, outermost
  first, with at most so many documents nested.
-/
def resolveDocument
    (source : Source)
    (config : Config) :
    Nat → List CanonicalPath → CanonicalPath → Bool →
      Run Value
  | 0, _, path, _ => Run.fail (.tooDeep path)
  | bound + 1, ancestors, path, isRoot =>
      if ancestors.contains path then
        Run.fail (.circular path (ancestors ++ [path]))
      else do
        let chain := ancestors ++ [path]
        Run.step (.entered path chain.length)
        match ← loadDocument source config path isRoot with
        | none => return .empty
        | some document =>
            let parts := config.split document
            if !parts.wellFormed then
              Run.step (.warned (.malformedIncludes path))
            let resolve (included : CanonicalPath) :=
              resolveDocument source config bound chain
                included false
            let merged ←
              mergeIncludes config path resolve
                parts.references .empty
            mergeFor config path merged parts.content

end Transclusion

------------------------------------------------------------
-- Reports
------------------------------------------------------------

namespace Transclusion

/-
  A resolved document with every document that was loaded,
  in order, and every warning.
-/
structure Resolution where
  document : Value
  files : List CanonicalPath
  warnings : List Warning
  deriving DecidableEq

namespace Step

/- The document that was loaded, if one was. -/
def file? : Step → Option CanonicalPath
  | loaded path => some path
  | _ => none

/- The warning, if it is one. -/
def warning? : Step → Option Warning
  | warned warning => some warning
  | _ => none

end Step

/- What a resolution works with. -/
structure Resolver where
  source : Source
  directory : Except Fault CanonicalPath
  config : Config := {}
  bound : Nat

namespace Resolver

/-
  The canonical form of a path.  A relative one needs the
  working directory.
-/
def canonicalize
    (resolver : Resolver)
    (path : String) : Except Fault CanonicalPath :=
  if isAbsolutePath path then
    .ok (CanonicalPath.ofText path)
  else
    resolver.directory.map (·.join path)

/- The steps of a resolution, and its report or failure. -/
def trace
    (resolver : Resolver)
    (path : String) :
    List Step × Except Failure Resolution :=
  match resolver.canonicalize path with
  | .error fault => ([], .error (.invalidPath path fault))
  | .ok root =>
      let run :=
        resolveDocument resolver.source resolver.config
          resolver.bound [] root true
      match run.result with
      | .error error => (run.steps, .error (.resolve error))
      | .ok document =>
          (run.steps,
            .ok
              { document := document
                files := run.steps.filterMap Step.file?
                warnings :=
                  run.steps.filterMap Step.warning? })

/- Resolve a document with a report. -/
def report
    (resolver : Resolver)
    (path : String) : Except Failure Resolution :=
  (resolver.trace path).2

/- Resolve a document. -/
def resolve
    (resolver : Resolver)
    (path : String) : Except Failure Value :=
  (resolver.report path).map (·.document)

/-
  Resolve a document as a value of a shape.  A value that
  does not fit is shown as YAML.
-/
def resolveAs
    (resolver : Resolver)
    (shape : Shape)
    (path : String) : Except Failure Value := do
  let document ← resolver.resolve path
  (shape.read document).mapError fun complaint =>
    .malformed path
      { message := complaint.message Wording.value
        source := document.yaml }

end Resolver

end Transclusion

------------------------------------------------------------
-- Single Documents
------------------------------------------------------------

namespace Transclusion

/- A document on its own, if its text is one. -/
def document?
    (text : Except Fault String) : Option Value :=
  match text with
  | .error _ => none
  | .ok text => (parseText text).toOption

end Transclusion
