import Transclusion.Document
import Transclusion.Merge
import Transclusion.Path.Canonical
import Transclusion.Source.Fault

/-
  Why a resolution fails, and what it only warns about.

  Key definitions include:
    * `Transclusion.ResolveError`
    * `Transclusion.ResolveError.rootCause`
    * `Transclusion.ResolveError.includeChain`
    * `Transclusion.Failure`
    * `Transclusion.Warning`

  A failure inside an included document is wrapped once for
  every document that includes it, so that the chain leads
  from the root to the document that failed.
-/

------------------------------------------------------------
-- Errors
------------------------------------------------------------

namespace Transclusion

/-
  Why a document cannot be resolved.  `tooDeep` tells of
  more nested documents than a bound allows.
-/
inductive ResolveError where
  | unreadable (path : CanonicalPath) (fault : Fault)
  | malformed (path : CanonicalPath) (error : ParseError)
  | circular
      (path : CanonicalPath)
      (chain : List CanonicalPath)
  | conflict
      (path : CanonicalPath)
      (clash : MergeConflict)
  | tooDeep (path : CanonicalPath)
  | within (path : CanonicalPath) (inner : ResolveError)
  deriving DecidableEq

namespace ResolveError

/- The innermost error. -/
def rootCause : ResolveError → ResolveError
  | within _ inner => inner.rootCause
  | error => error

/-
  The documents involved, from the root to the one that
  failed.
-/
def includeChain : ResolveError → List CanonicalPath
  | within path inner => path :: inner.includeChain
  | unreadable path _ => [path]
  | malformed path _ => [path]
  | circular path _ => [path]
  | conflict path _ => [path]
  | tooDeep path => [path]

/- What is said about an error. -/
def message : ResolveError → String
  | unreadable path fault =>
      "failed to read '" ++ path.text ++ "': " ++
        fault.message
  | malformed path error =>
      "failed to parse '" ++ path.text ++ "': " ++
        error.message
  | circular path _ =>
      "circular include detected for '" ++ path.text ++ "'"
  | conflict path clash =>
      "merge conflict in '" ++ path.text ++ "': " ++
        clash.message
  | tooDeep path =>
      "too many nested includes for '" ++ path.text ++ "'"
  | within path inner =>
      "error processing '" ++ path.text ++ "': " ++
        inner.message

end ResolveError

end Transclusion

------------------------------------------------------------
-- Failures
------------------------------------------------------------

namespace Transclusion

/-
  Why a request fails: because of a document, or because of
  a path as it was given.
-/
inductive Failure where
  | resolve (error : ResolveError)
  | unreadable (path : String) (fault : Fault)
  | unwritable (path : String) (fault : Fault)
  | unserializable (path : String) (fault : Fault)
  | malformed (path : String) (error : ParseError)
  | invalidPath (path : String) (fault : Fault)
  deriving DecidableEq

/- The kinds of failures. -/
inductive FailureKind where
  | fileLoad
  | fileWrite
  | serialize
  | parse
  | circularInclude
  | mergeConflict
  | invalidPath
  | tooDeep
  | nested
  deriving DecidableEq

/- The kind of an error. -/
def ResolveError.kind : ResolveError → FailureKind
  | unreadable _ _ => .fileLoad
  | malformed _ _ => .parse
  | circular _ _ => .circularInclude
  | conflict _ _ => .mergeConflict
  | tooDeep _ => .tooDeep
  | within _ _ => .nested

namespace Failure

/- The kind of a failure. -/
def kind : Failure → FailureKind
  | resolve error => error.kind
  | unreadable _ _ => .fileLoad
  | unwritable _ _ => .fileWrite
  | unserializable _ _ => .serialize
  | malformed _ _ => .parse
  | invalidPath _ _ => .invalidPath

/- The kind of what a failure comes from. -/
def rootKind : Failure → FailureKind
  | resolve error => error.rootCause.kind
  | failure => failure.kind

/- The documents involved, the one that failed last. -/
def chain : Failure → List String
  | resolve error => error.includeChain.map (·.text)
  | unreadable path _ => [path]
  | unwritable path _ => [path]
  | unserializable path _ => [path]
  | malformed path _ => [path]
  | invalidPath path _ => [path]

/- The text that is no document, if that is the failure. -/
def parseError? : Failure → Option ParseError
  | resolve error =>
      match error.rootCause with
      | .malformed _ error => some error
      | _ => none
  | malformed _ error => some error
  | _ => none

/- The conflict that a failure comes from, if it does. -/
def conflict? : Failure → Option MergeConflict
  | resolve error =>
      match error.rootCause with
      | .conflict _ clash => some clash
      | _ => none
  | _ => none

/- The cycle that a failure comes from, if it does. -/
def cycle? : Failure → Option (List String)
  | resolve error =>
      match error.rootCause with
      | .circular _ chain => some (chain.map (·.text))
      | _ => none
  | _ => none

/- What is said about a failure. -/
def message : Failure → String
  | resolve error => error.message
  | unreadable path fault =>
      "failed to read '" ++ path ++ "': " ++ fault.message
  | unwritable path fault =>
      "failed to write '" ++ path ++ "': " ++ fault.message
  | unserializable path fault =>
      "failed to serialize '" ++ path ++ "': " ++
        fault.message
  | malformed path error =>
      "failed to parse '" ++ path ++ "': " ++ error.message
  | invalidPath path fault =>
      "invalid path '" ++ path ++ "': " ++ fault.message

end Failure

end Transclusion

------------------------------------------------------------
-- Warnings
------------------------------------------------------------

namespace Transclusion

/- What is reported but does not stop a resolution. -/
inductive Warning where
  | malformedIncludes (path : CanonicalPath)
  | missingRoot (path : CanonicalPath) (fault : Fault)
  deriving DecidableEq

namespace Warning

/- What is said about a warning. -/
def message : Warning → String
  | malformedIncludes path =>
      "could not parse the includes directive in '" ++
        path.text ++ "'; treating it as empty"
  | missingRoot path fault =>
      "could not read '" ++ path.text ++ "' (" ++
        fault.message ++
        "); treating it as an empty document"

end Warning

end Transclusion
