import Transclusion.Proofs.Resolve.Failure

/-
  How deep documents are nested.

  Key theorems include:
    * `Transclusion.depth_le_of_mem_steps`
    * `Transclusion.resolveDocument_eq_of_lt`
    * `Transclusion.Store.trace_bounded`

  The documents being resolved are different and all but the
  last of them can be read, so they are at most one more
  than the source holds.  With a bound above that number,
  the bound is never met, and its size does not matter.
-/

------------------------------------------------------------
-- Steps
------------------------------------------------------------

namespace Transclusion

/- A step of two runs is a step of one of them. -/
theorem Run.mem_steps_of_mem_bind
    {α β : Type}
    {run : Run α}
    {next : α → Run β}
    {step : Step}
    (hStep : step ∈ (run >>= next).steps) :
    step ∈ run.steps ∨
      ∃ a, run.result = .ok a ∧ step ∈ (next a).steps := by
  cases hRun : run.result with
  | error error =>
      rw [Run.bind_of_error hRun] at hStep
      exact .inl hStep
  | ok a =>
      rw [Run.bind_of_ok hRun] at hStep
      rcases List.mem_append.mp hStep with hFirst | hNext
      · exact .inl hFirst
      · exact .inr ⟨a, rfl, hNext⟩

variable {config : Config}
variable {path : CanonicalPath}
variable {resolve : CanonicalPath → Run Value}
variable {step : Step}

/- Merging includes takes the steps of resolving them. -/
theorem mem_steps_of_mem_mergeIncludes
    {references : List String}
    {merged : Value}
    (hStep :
      step ∈
        (mergeIncludes config path resolve references
          merged).steps) :
    ∃ reference ∈ references,
      step ∈
        (resolve (resolveInclude path reference)).steps := by
  induction references generalizing merged with
  | nil => cases hStep
  | cons reference rest ih =>
      unfold mergeIncludes at hStep
      rcases Run.mem_steps_of_mem_bind hStep with
        hInclude | ⟨included, _hIncluded, hStep⟩
      · exact ⟨reference, List.mem_cons_self, hInclude⟩
      · rcases Run.mem_steps_of_mem_bind hStep with
          hMerge | ⟨next, _hNext, hRest⟩
        · cases hMerge
        · rcases ih hRest with ⟨later, hLater, hStep⟩
          exact
            ⟨later, List.mem_cons_of_mem _ hLater, hStep⟩

/- Assembling a document takes the steps of its includes. -/
theorem mem_steps_of_mem_assemble
    {document : Value}
    (hStep :
      step ∈ (assemble config path resolve document).steps) :
    ∃ reference ∈ (config.split document).references,
      step ∈
        (resolve (resolveInclude path reference)).steps := by
  unfold assemble at hStep
  rcases Run.mem_steps_of_mem_bind hStep with
    hIncludes | ⟨inherited, _hInherited, hMerge⟩
  · exact mem_steps_of_mem_mergeIncludes hIncludes
  · cases hMerge

end Transclusion

------------------------------------------------------------
-- Nesting
------------------------------------------------------------

namespace Transclusion

variable {source : Source}
variable {config : Config}
variable {count : Nat}
variable {ancestors : List CanonicalPath}
variable {path : CanonicalPath}
variable {isRoot : Bool}

/-
  Documents are nested at most one deeper than there are
  documents.
-/
theorem depth_le_of_mem_steps
    {bound depth : Nat}
    {entered : CanonicalPath}
    (hHolds : Source.HoldsAtMost source count)
    (hActive : IsActive source ancestors)
    (hStep :
      .entered entered depth ∈
        (resolveDocument source config bound ancestors path
          isRoot).steps) :
    depth ≤ count + 1 := by
  have hLength := hActive.length_le hHolds
  induction bound generalizing ancestors path isRoot with
  | zero => cases hStep
  | succ bound ih =>
      by_cases hMem : path ∈ ancestors
      · rw [resolveDocument_of_mem hMem] at hStep
        cases hStep
      · rcases lookup_cases (source path) with
          ⟨fault, hMissing⟩ |
          ⟨content, error, hText, hParse⟩ |
          ⟨document, hDocument⟩
        · rw [resolveDocument_of_missing hMem
            hMissing] at hStep
          have hDepth : depth = ancestors.length + 1 := by
            split at hStep <;> simp_all
          omega
        · rw [resolveDocument_of_malformed hMem hText
            hParse] at hStep
          have hDepth : depth = ancestors.length + 1 := by
            simp_all
          omega
        · rw [resolveDocument_of_document hMem
            hDocument] at hStep
          have hBelow := hActive.append hMem hDocument
          simp only [List.mem_cons, List.mem_append,
            List.mem_map, Step.entered.injEq, reduceCtorEq,
            false_or, and_false, exists_false] at hStep
          rcases hStep with ⟨_hEntered, hDepth⟩ | hStep
          · omega
          · rcases mem_steps_of_mem_assemble hStep with
              ⟨reference, _hReference, hStep⟩
            exact ih hBelow hStep (hBelow.length_le hHolds)

/-
  Bounds above the number of documents that are not yet
  active all lead to the same run.
-/
theorem resolveDocument_eq_of_lt
    {bound bound' : Nat}
    (hHolds : Source.HoldsAtMost source count)
    (hActive : IsActive source ancestors)
    (hBound : count < ancestors.length + bound)
    (hBound' : count < ancestors.length + bound') :
    resolveDocument source config bound ancestors path
        isRoot =
      resolveDocument source config bound' ancestors path
        isRoot := by
  have hLength := hActive.length_le hHolds
  induction bound generalizing
      bound' ancestors path isRoot with
  | zero => omega
  | succ bound ih =>
      cases bound' with
      | zero => omega
      | succ bound' =>
          by_cases hMem : path ∈ ancestors
          · rw [resolveDocument_of_mem hMem,
              resolveDocument_of_mem hMem]
          · rcases lookup_cases (source path) with
              ⟨fault, hMissing⟩ |
              ⟨content, error, hText, hParse⟩ |
              ⟨document, hDocument⟩
            · rw [resolveDocument_of_missing hMem hMissing,
                resolveDocument_of_missing hMem hMissing]
            · rw [resolveDocument_of_malformed hMem hText
                  hParse,
                resolveDocument_of_malformed hMem hText
                  hParse]
            · have hBelow := hActive.append hMem hDocument
              have hIncludes :
                  (fun included =>
                      resolveDocument source config bound
                        (ancestors ++ [path]) included
                        false) =
                    fun included =>
                      resolveDocument source config bound'
                        (ancestors ++ [path]) included
                        false := by
                funext included
                refine
                  ih hBelow ?_ ?_
                    (hBelow.length_le hHolds) <;>
                  rw [List.length_append,
                    List.length_singleton] <;>
                  omega
              rw [resolveDocument_of_document hMem hDocument,
                resolveDocument_of_document hMem hDocument,
                hIncludes]

/- The chain of a failure is no longer than documents nest. -/
theorem Arises.length_includeChain_le
    {resolves : CanonicalPath → Value → Prop}
    {error : ResolveError}
    (hHolds : Source.HoldsAtMost source count)
    (hActive : IsActive source ancestors)
    (hArises :
      Arises source config resolves ancestors path error) :
    ancestors.length + error.includeChain.length ≤
      count + 1 := by
  have hLength := hActive.length_le hHolds
  induction hArises with
  | within hNew hFollows hInner ih =>
      have hBelow := hFollows.isActive hActive hNew
      have hInnerLength :=
        ih hBelow (hBelow.length_le hHolds)
      rw [List.length_append, List.length_singleton]
        at hInnerLength
      rw [ResolveError.includeChain, List.length_cons]
      omega
  | _ =>
      rw [ResolveError.includeChain, List.length_singleton]
      omega

end Transclusion

------------------------------------------------------------
-- Stores
------------------------------------------------------------

namespace Transclusion

namespace Store

variable {store : Store}
variable {directory : Except Fault String}
variable {config : Config}
variable {path : String}
variable {root : CanonicalPath}
variable {bound : Nat}

/- Bounds above the documents of a store are all the same. -/
theorem run_eq_of_lt
    (hBound : store.keys.card < bound) :
    resolveDocument store.load config bound [] root true =
      (store.resolverFrom directory config).run root := by
  have hSize := card_keys_le_size store
  rw [run_resolverFrom]
  refine
    resolveDocument_eq_of_lt (holdsAtMost_card_keys store)
      .nil ?_ ?_ <;>
    rw [List.length_nil] <;>
    omega

/- A resolver bounded above its documents runs as before. -/
theorem trace_bounded_eq
    (hBound : store.keys.card < bound) :
    ((store.resolverFrom directory config).bounded
        bound).trace path =
      (store.resolverFrom directory config).trace path := by
  cases hRoot :
      (store.resolverFrom directory config).canonicalize
        path with
  | error fault =>
      rw [Resolver.trace_of_invalid hRoot]
      exact Resolver.trace_of_invalid hRoot
  | ok root =>
      rw [Resolver.trace_eq hRoot, ← run_eq_of_lt hBound]
      exact Resolver.trace_eq hRoot

/- What resolves by itself is resolved from a store. -/
theorem resolve_of_resolves
    {value : Value}
    (hRooted : root.IsRooted)
    (hResolves :
      Resolves store.load config [] root value) :
    (store.resolverFrom directory config).resolve
        root.text =
      .ok value := by
  rcases hResolves with ⟨bound, hOk⟩
  have hSize := card_keys_le_size store
  have hLarge :
      store.keys.card < max bound (store.size + 1) := by
    omega
  have hRun :
      (resolveDocument store.load config
          (max bound (store.size + 1)) [] root
          true).result =
        .ok value :=
    resolveDocument_result_mono (Nat.le_max_left _ _) hOk
  rw [run_eq_of_lt hLarge] at hRun
  rw [Resolver.resolve_eq (canonicalize_text hRooted), hRun]
  rfl

/-
  With any bound above the number of documents, no more than
  one further document is active, the bound is not met, and
  everything happens as with any other such bound.
-/
theorem trace_bounded
    (store : Store)
    (directory : Except Fault String)
    (config : Config)
    (path : String)
    (bound : Nat)
    (hBound : store.keys.card < bound) :
    let resolver := store.resolverFrom directory config
    let trace := (resolver.bounded bound).trace path
    (∀ entered depth,
        .entered entered depth ∈ trace.1 →
          depth ≤ store.keys.card + 1) ∧
      (∀ error,
        trace.2 = .error (.resolve error) →
          error.includeChain.length ≤ store.keys.card + 1 ∧
            ∀ deep, error.rootCause ≠ .tooDeep deep) ∧
      trace = resolver.trace path := by
  intro resolver trace
  have hTrace : trace = resolver.trace path :=
    trace_bounded_eq hBound
  rw [hTrace]
  have hHolds := holdsAtMost_card_keys store
  have hActive : IsActive store.load [] := .nil
  cases hRoot : resolver.canonicalize path with
  | error fault =>
      rw [Resolver.trace_of_invalid hRoot]
      simp
  | ok root =>
      refine ⟨?_, ?_, rfl⟩
      · intro entered depth hStep
        rw [Resolver.trace_eq hRoot] at hStep
        exact depth_le_of_mem_steps hHolds hActive hStep
      · intro error hError
        rw [Resolver.trace_eq hRoot,
          mapError_eq_error_iff] at hError
        rcases hError with ⟨cause, hRun, hCause⟩
        cases hCause
        have hArises :=
          arises_of_run_eq_error
            (Run.resolution_eq_error_iff.mp hRun)
        have hLength :=
          hArises.length_includeChain_le hHolds hActive
        exact
          ⟨by simpa using hLength,
            hArises.rootCause_ne_tooDeep⟩

/- Two documents, the second of which includes no third. -/
def broken : Store :=
  ofList
    [("/a.yaml", "includes: [b.yaml]\n"),
      ("/b.yaml", "includes: [../c.yaml]\n")]

/- The document that is missing is active in third place. -/
theorem trace_bounded_broken :
    let resolver := broken.resolverFrom (.ok "/") {}
    let trace := (resolver.bounded 3).trace "/a.yaml"
    broken.keys.card < 3 ∧
      .entered (.ofText "/c.yaml") 3 ∈ trace.1 ∧
      (∀ entered depth,
        .entered entered depth ∈ trace.1 →
          depth ≤ broken.keys.card + 1) ∧
      (∀ error,
        trace.2 = .error (.resolve error) →
          error.includeChain.length ≤
              broken.keys.card + 1 ∧
            ∀ deep, error.rootCause ≠ .tooDeep deep) ∧
      trace = resolver.trace "/a.yaml" := by
  intro resolver trace
  have hBound : broken.keys.card < 3 := by
    decide +kernel
  have hThird :
      .entered (.ofText "/c.yaml") 3 ∈ trace.1 := by
    decide +kernel
  exact
    ⟨hBound, hThird,
      trace_bounded broken (.ok "/") {} "/a.yaml" 3 hBound⟩

end Store

end Transclusion
