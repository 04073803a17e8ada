import Transclusion.Proofs.Resolve.Depth

/-
  Leniency towards a root that cannot be read.

  Key definitions include:
    * `Transclusion.Config.withLeniency`

  Key theorems include:
    * `Transclusion.loadDocument_withLeniency`
    * `Transclusion.mergeIncludes_withLeniency`
    * `Transclusion.resolveDocument_withLeniency`
    * `Transclusion.Store.report_of_missing`
    * `Transclusion.Store.leniency_only_at_root`

  Only the first document to be loaded can be a root, so a
  lenient run and a strict one take the same steps and end
  alike, unless that document is missing.
-/

------------------------------------------------------------
-- One Document
------------------------------------------------------------

namespace Transclusion

/- The same settings, lenient or not. -/
def Config.withLeniency
    (config : Config)
    (lenient : Bool) : Config where
  includesKey := config.includesKey
  lenientRoot := lenient
  merge := config.merge

variable {source : Source}
variable {config : Config}
variable {lenient : Bool}
variable {path : CanonicalPath}

/- Includes and roots that are found are loaded alike. -/
theorem loadDocument_withLeniency
    {isRoot : Bool}
    (hFound :
      isRoot = true →
        ∃ content, source path = .ok content) :
    loadDocument source (config.withLeniency lenient) path
        isRoot =
      loadDocument source config path isRoot := by
  unfold loadDocument
  cases hText : source path with
  | ok content => rfl
  | error fault =>
      have hIncluded : isRoot = false := by
        rw [← Bool.not_eq_true]
        intro hRoot
        rcases hFound hRoot with ⟨content, hContent⟩
        rw [hContent] at hText
        cases hText
      subst hIncluded
      rfl

/- Includes are merged alike. -/
theorem mergeIncludes_withLeniency
    (resolve : CanonicalPath → Run Value)
    (references : List String)
    (merged : Value) :
    mergeIncludes (config.withLeniency lenient) path resolve
        references merged =
      mergeIncludes config path resolve references
        merged := by
  induction references generalizing merged with
  | nil => rfl
  | cons reference rest ih =>
      simp only [mergeIncludes, ih]
      rfl

end Transclusion

------------------------------------------------------------
-- Documents with Includes
------------------------------------------------------------

namespace Transclusion

variable {source : Source}
variable {config : Config}
variable {lenient : Bool}

/-
  Below the root, and for a root that is found, leniency
  makes no difference.
-/
theorem resolveDocument_withLeniency
    {bound : Nat}
    {ancestors : List CanonicalPath}
    {path : CanonicalPath}
    {isRoot : Bool}
    (hFound :
      isRoot = true →
        ∃ content, source path = .ok content) :
    resolveDocument source (config.withLeniency lenient)
        bound ancestors path isRoot =
      resolveDocument source config bound ancestors path
        isRoot := by
  induction bound generalizing ancestors path isRoot with
  | zero => rfl
  | succ bound ih =>
      -- No include is a root, so nothing is asked of them.
      have hIncludes :
          (fun included =>
              resolveDocument source
                (config.withLeniency lenient) bound
                (ancestors ++ [path]) included false) =
            fun included =>
              resolveDocument source config bound
                (ancestors ++ [path]) included false := by
        funext included
        exact ih (by simp)
      simp only [resolveDocument,
        loadDocument_withLeniency hFound, hIncludes,
        mergeIncludes_withLeniency]
      rfl

end Transclusion

------------------------------------------------------------
-- Stores
------------------------------------------------------------

namespace Transclusion

namespace Store

variable {store : Store}
variable {directory : Except Fault String}
variable {config : Config}
variable {path : String}
variable {root : CanonicalPath}

/- A missing root is empty for a lenient resolver only. -/
theorem report_of_missing
    {fault : Fault}
    (hRoot :
      (store.resolverFrom directory config).canonicalize
          path =
        .ok root)
    (hMissing : store.load root = .error fault) :
    (store.resolverFrom directory config).report path =
      if config.lenientRoot then
        .ok ⟨.empty, [], [.missingRoot root fault]⟩
      else
        .error (.resolve (.unreadable root fault)) := by
  rw [Resolver.report_eq hRoot, run_resolverFrom,
    resolveDocument_of_missing List.not_mem_nil hMissing]
  cases config.lenientRoot <;> rfl

/-
  Whether a resolver is lenient makes no difference at all,
  unless the root is missing.  Then a lenient resolver takes
  it for empty, and a strict one fails.
-/
theorem leniency_only_at_root
    (store : Store)
    (directory : Except Fault String)
    (config : Config)
    (path : String) :
    let lenient :=
      store.resolverFrom directory (config.withLeniency true)
    let strict :=
      store.resolverFrom directory
        (config.withLeniency false)
    ((∀ root, lenient.canonicalize path = .ok root →
          ∃ content, store.load root = .ok content) →
        lenient.trace path = strict.trace path) ∧
      ∀ root fault,
        lenient.canonicalize path = .ok root →
          store.load root = .error fault →
            lenient.report path =
                .ok ⟨.empty, [], [.missingRoot root fault]⟩ ∧
              strict.report path =
                .error
                  (.resolve (.unreadable root fault)) := by
  intro lenient strict
  constructor
  · intro hFound
    cases hRoot : lenient.canonicalize path with
    | error fault =>
        have hStrict : strict.canonicalize path = _ := hRoot
        rw [Resolver.trace_of_invalid hRoot,
          Resolver.trace_of_invalid hStrict]
    | ok root =>
        have hStrict : strict.canonicalize path = _ := hRoot
        have hRun : lenient.run root = strict.run root := by
          dsimp only [lenient, strict]
          rw [run_resolverFrom, run_resolverFrom,
            resolveDocument_withLeniency
              fun _ => hFound root hRoot,
            resolveDocument_withLeniency
              fun _ => hFound root hRoot]
        rw [Resolver.trace_eq hRoot,
          Resolver.trace_eq hStrict, hRun]
  · intro root fault hRoot hMissing
    exact
      ⟨report_of_missing hRoot hMissing,
        report_of_missing hRoot hMissing⟩

/-
  A document that is missing in third place fails in the
  same way, and one in first place does not.
-/
theorem leniency_only_at_root_broken :
    let lenient :=
      broken.resolverFrom (.ok "/")
        (Config.withLeniency {} true)
    let strict :=
      broken.resolverFrom (.ok "/")
        (Config.withLeniency {} false)
    let root : CanonicalPath := .ofText "/none.yaml"
    let fault : Fault := .notRegistered "/none.yaml"
    ((∀ root, lenient.canonicalize "/a.yaml" = .ok root →
          ∃ content, broken.load root = .ok content) ∧
        lenient.trace "/a.yaml" = strict.trace "/a.yaml" ∧
        ∃ error,
          strict.report "/a.yaml" =
              .error (.resolve error) ∧
            error.includeChain =
              [.ofText "/a.yaml", .ofText "/b.yaml",
                .ofText "/c.yaml"]) ∧
      lenient.canonicalize "/none.yaml" = .ok root ∧
        broken.load root = .error fault ∧
        lenient.report "/none.yaml" =
            .ok ⟨.empty, [], [.missingRoot root fault]⟩ ∧
          strict.report "/none.yaml" =
            .error (.resolve (.unreadable root fault)) := by
  intro lenient strict root fault
  have hBroken :=
    leniency_only_at_root broken (.ok "/") {}
  constructor
  · have hFound :
        ∀ root, lenient.canonicalize "/a.yaml" = .ok root →
          ∃ content, broken.load root = .ok content := by
      intro root hRoot
      have hPath :
          lenient.canonicalize "/a.yaml" =
            .ok (.ofText "/a.yaml") := by
        decide +kernel
      rw [hPath, Except.ok.injEq] at hRoot
      subst hRoot
      exact ⟨"includes: [b.yaml]\n", by decide +kernel⟩
    refine ⟨hFound, (hBroken "/a.yaml").1 hFound, ?_⟩
    refine
      ⟨.within (.ofText "/a.yaml")
          (.within (.ofText "/b.yaml")
            (.unreadable (.ofText "/c.yaml")
              (.notRegistered "/c.yaml"))), ?_, rfl⟩
    decide +kernel
  · have hRoot :
        lenient.canonicalize "/none.yaml" = .ok root := by
      decide +kernel
    have hMissing : broken.load root = .error fault := by
      decide +kernel
    exact
      ⟨hRoot, hMissing,
        (hBroken "/none.yaml").2 root fault hRoot hMissing⟩

end Store

end Transclusion
