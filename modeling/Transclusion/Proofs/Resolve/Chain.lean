import Mathlib.Data.List.Chain
import Transclusion.Proofs.Resolve.Depth

/-
  What a failure tells about the documents involved.

  Key definitions include:
    * `Transclusion.Blames`
    * `Transclusion.Resolver.Yields`

  Key theorems include:
    * `Transclusion.Arises.exists_blames`
    * `Transclusion.Store.exists_blames_of_resolve_eq_error`

  The chain of a failure leads from the root to the document
  that fails.  Each document on it is followed to the next,
  with everything before that resolved, and the failure of
  the last one is what its text, its ancestors or the merge
  of its includes give.
-/

------------------------------------------------------------
-- Blame
------------------------------------------------------------

namespace Transclusion

/-
  An error of a document below its ancestors that blames the
  last document of a chain, and with reason.
-/
structure Blames
    (source : Source)
    (config : Config)
    (resolves : CanonicalPath → Value → Prop)
    (ancestors : List CanonicalPath)
    (path : CanonicalPath)
    (error : ResolveError)
    (before : List CanonicalPath)
    (last : CanonicalPath) : Prop where
  chain : error.includeChain = before ++ [last]
  head : error.includeChain.head? = some path
  follows :
    error.includeChain.IsChain
      (Follows source config resolves)
  distinct : (ancestors ++ before).Nodup
  unreadable :
    ∀ fault,
      error.rootCause = .unreadable last fault ↔
        source last = .error fault
  malformed :
    ∀ problem,
      error.rootCause = .malformed last problem ↔
        ∃ content, source last = .ok content ∧
          parseText content = .error problem
  circular :
    ∀ cycle,
      error.rootCause = .circular last cycle ↔
        last ∈ ancestors ++ before ∧
          cycle = ancestors ++ error.includeChain
  conflict :
    ∀ document,
      document? (source last) = some document →
        last ∉ ancestors ++ before →
          ∃ clash,
            error.rootCause = .conflict last clash ∧
              Clashes config resolves last document clash

variable {source : Source}
variable {config : Config}
variable {resolves : CanonicalPath → Value → Prop}
variable {ancestors : List CanonicalPath}
variable {path : CanonicalPath}

namespace Blames

/- A document that cannot be read is blamed itself. -/
theorem of_missing
    {fault : Fault}
    (hNodup : ancestors.Nodup)
    (hNew : path ∉ ancestors)
    (hMissing : source path = .error fault) :
    Blames source config resolves ancestors path
      (.unreadable path fault) [] path := by
  constructor <;>
    simp [ResolveError.includeChain,
      ResolveError.rootCause, hNodup, hNew, hMissing,
      document?]

/- A document that is no text of values is blamed itself. -/
theorem of_malformed
    {content : String}
    {problem : ParseError}
    (hNodup : ancestors.Nodup)
    (hNew : path ∉ ancestors)
    (hText : source path = .ok content)
    (hParse : parseText content = .error problem) :
    Blames source config resolves ancestors path
      (.malformed path problem) [] path := by
  constructor <;>
    simp [ResolveError.includeChain,
      ResolveError.rootCause, hNodup, hNew, hText, hParse,
      document?, Except.toOption]

/- A document inside itself is blamed itself. -/
theorem of_circular
    (hActive : IsActive source ancestors)
    (hMem : path ∈ ancestors) :
    Blames source config resolves ancestors path
      (.circular path (ancestors ++ [path])) [] path := by
  rcases hActive.found path hMem with ⟨document, hDocument⟩
  rcases document?_eq_some_iff.mp hDocument with
    ⟨content, hText, hParse⟩
  constructor <;>
    simp [ResolveError.includeChain,
      ResolveError.rootCause, hActive.nodup, hMem, hText,
      hParse, eq_comm]

/- A document whose merge fails is blamed itself. -/
theorem of_conflict
    {document : Value}
    {clash : MergeConflict}
    (hNodup : ancestors.Nodup)
    (hNew : path ∉ ancestors)
    (hDocument : document? (source path) = some document)
    (hClashes :
      Clashes config resolves path document clash) :
    Blames source config resolves ancestors path
      (.conflict path clash) [] path := by
  rcases document?_eq_some_iff.mp hDocument with
    ⟨content, hText, hParse⟩
  constructor
  case conflict =>
    intro other hOther _hNew
    rw [hDocument, Option.some.injEq] at hOther
    subst hOther
    exact ⟨clash, rfl, hClashes⟩
  all_goals
    simp [ResolveError.includeChain,
      ResolveError.rootCause, hNodup, hNew, hText, hParse]

/- What an include blames, the document itself blames. -/
theorem within
    {included last : CanonicalPath}
    {inner : ResolveError}
    {before : List CanonicalPath}
    (hFollows :
      Follows source config resolves path included)
    (hBlames :
      Blames source config resolves (ancestors ++ [path])
        included inner before last) :
    Blames source config resolves ancestors path
      (.within path inner) (path :: before) last := by
  have hAppend :=
    (List.append_cons ancestors path before).symm
  constructor
  case chain =>
    rw [ResolveError.includeChain, hBlames.chain,
      List.cons_append]
  case head => rfl
  case follows =>
    rw [ResolveError.includeChain, List.isChain_cons]
    refine ⟨?_, hBlames.follows⟩
    intro next hNext
    rw [hBlames.head, Option.mem_some] at hNext
    rw [← hNext]
    exact hFollows
  case distinct =>
    rw [← hAppend]
    exact hBlames.distinct
  case unreadable => exact hBlames.unreadable
  case malformed => exact hBlames.malformed
  case circular =>
    intro cycle
    rw [← hAppend, ResolveError.includeChain,
      List.append_cons ancestors path inner.includeChain]
    exact hBlames.circular cycle
  case conflict =>
    rw [← hAppend]
    exact hBlames.conflict

end Blames

/- Every cause blames a document, and with reason. -/
theorem Arises.exists_blames
    {error : ResolveError}
    (hActive : IsActive source ancestors)
    (hArises :
      Arises source config resolves ancestors path error) :
    ∃ before last,
      Blames source config resolves ancestors path error
        before last := by
  induction hArises with
  | missing hNew hMissing =>
      exact
        ⟨[], _, .of_missing hActive.nodup hNew hMissing⟩
  | malformed hNew hText hParse =>
      exact
        ⟨[], _,
          .of_malformed hActive.nodup hNew hText hParse⟩
  | circular hMem =>
      exact ⟨[], _, .of_circular hActive hMem⟩
  | conflict hNew hDocument hClashes =>
      exact
        ⟨[], _,
          .of_conflict hActive.nodup hNew hDocument
            hClashes⟩
  | within hNew hFollows hInner ih =>
      have hBelow := hFollows.isActive hActive hNew
      rcases ih hBelow with ⟨before, last, hBlames⟩
      exact ⟨_ :: before, last, .within hFollows hBlames⟩

end Transclusion

------------------------------------------------------------
-- Stores
------------------------------------------------------------

namespace Transclusion

/-
  A resolver resolves a canonical path to a document, both
  as an include and on its own, where a missing one might
  count as empty.
-/
structure Resolver.Yields
    (resolver : Resolver)
    (path : CanonicalPath)
    (document : Value) : Prop where
  included :
    Resolves resolver.source resolver.config [] path
      document
  alone : resolver.resolve path.text = .ok document

namespace Store

/-
  Where a store does not resolve a path, the error leads to
  the document to blame.
-/
theorem exists_blames_of_resolve_eq_error
    (store : Store)
    (directory : Except Fault String)
    (config : Config)
    (path : String)
    {root : CanonicalPath}
    {failure : Failure}
    (hRoot :
      (store.resolverFrom directory config).canonicalize
          path =
        .ok root)
    (hError :
      (store.resolverFrom directory config).resolve path =
        .error failure) :
    ∃ error before last,
      failure = .resolve error ∧
        Blames store.load config
          (store.resolverFrom directory config).Yields []
          root error before last := by
  rw [Resolver.resolve_eq hRoot, mapError_eq_error_iff]
    at hError
  rcases hError with ⟨error, hRun, rfl⟩
  have hArises :
      Arises store.load config
        (store.resolverFrom directory config).Yields []
        root error := by
    refine
      (arises_of_run_eq_error hRun).imp ?_
        (isRooted_of_canonicalize hRoot)
    intro included hRooted document hResolves
    exact
      ⟨hResolves, resolve_of_resolves hRooted hResolves⟩
  rcases hArises.exists_blames .nil with
    ⟨before, last, hBlames⟩
  exact ⟨error, before, last, rfl, hBlames⟩

/-
  A document of which the second include leads back to the
  document.
-/
def looping : Store :=
  ofList
    [("/conf/main.yaml", "includes: [x.yaml, y.yaml]\n"),
      ("/conf/x.yaml", "name: x\n"),
      ("/conf/y.yaml",
        "includes: [../conf/main.yaml]\n")]

/- The path of the document that includes itself. -/
def loopingRoot : CanonicalPath :=
  .ofText "/conf/main.yaml"

/- The error of the document that includes itself. -/
def loopingError : ResolveError :=
  .within loopingRoot
    (.within (.ofText "/conf/y.yaml")
      (.circular loopingRoot
        [loopingRoot, .ofText "/conf/y.yaml",
          loopingRoot]))

/- The document that is met again is blamed for the loop. -/
theorem exists_blames_looping :
    let resolver := looping.resolverFrom (.ok "/") {}
    resolver.canonicalize "/conf/main.yaml" =
        .ok loopingRoot ∧
      resolver.resolve "/conf/main.yaml" =
          .error (.resolve loopingError) ∧
        ∃ error before last,
          Failure.resolve loopingError = .resolve error ∧
            Blames looping.load {} resolver.Yields []
              loopingRoot error before last := by
  intro resolver
  have hRoot :
      resolver.canonicalize "/conf/main.yaml" =
        .ok loopingRoot := by
    decide +kernel
  have hError :
      resolver.resolve "/conf/main.yaml" =
        .error (.resolve loopingError) := by
    decide +kernel
  exact
    ⟨hRoot, hError,
      exists_blames_of_resolve_eq_error looping (.ok "/") {}
        "/conf/main.yaml" hRoot hError⟩

end Store

end Transclusion
