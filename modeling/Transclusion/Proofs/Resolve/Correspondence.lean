import Transclusion.Proofs.Resolve.Depth

/-
  Resolutions that run alike.

  Key definitions include:
    * `Transclusion.Correspondence`
    * `Transclusion.Correspondence.Respects`
    * `Transclusion.Run.Corresponds`
    * `Transclusion.Resolution.Corresponds`

  Key theorems include:
    * `Transclusion.Run.Corresponds.bind`
    * `Transclusion.Correspondence.Respects.resolveDocument_corresponds`
    * `Transclusion.Store.report_corresponds`

  Two sources correspond if under corresponding paths both
  have nothing, both have no document, or have documents
  with corresponding includes and contents.  If different
  paths correspond to different paths and merges keep the
  correspondence, then the runs from corresponding paths
  take corresponding steps and end alike.
-/

------------------------------------------------------------
-- What Corresponds
------------------------------------------------------------

namespace Transclusion

/- What corresponds to what in two resolutions. -/
structure Correspondence where
  path : CanonicalPath → CanonicalPath → Prop
  fault : Fault → Fault → Prop
  value : Value → Value → Prop
  clash : MergeConflict → MergeConflict → Prop

/- Warnings of one kind about corresponding documents. -/
inductive Warning.Corresponds
    (alike : Correspondence) : Warning → Warning → Prop where
  | malformedIncludes
      {path path' : CanonicalPath}
      (hPath : alike.path path path') :
      Warning.Corresponds alike (.malformedIncludes path)
        (.malformedIncludes path')
  | missingRoot
      {path path' : CanonicalPath}
      {fault fault' : Fault}
      (hPath : alike.path path path')
      (hFault : alike.fault fault fault') :
      Warning.Corresponds alike (.missingRoot path fault)
        (.missingRoot path' fault')

/- Steps of one kind with corresponding documents. -/
inductive Step.Corresponds
    (alike : Correspondence) : Step → Step → Prop where
  | entered
      {path path' : CanonicalPath}
      (hPath : alike.path path path')
      (depth : Nat) :
      Step.Corresponds alike (.entered path depth)
        (.entered path' depth)
  | loaded
      {path path' : CanonicalPath}
      (hPath : alike.path path path') :
      Step.Corresponds alike (.loaded path) (.loaded path')
  | warned
      {warning warning' : Warning}
      (hWarning : warning.Corresponds alike warning') :
      Step.Corresponds alike (.warned warning)
        (.warned warning')

/- Errors of one kind with corresponding documents. -/
inductive ResolveError.Corresponds
    (alike : Correspondence) :
    ResolveError → ResolveError → Prop where
  | unreadable
      {path path' : CanonicalPath}
      {fault fault' : Fault}
      (hPath : alike.path path path')
      (hFault : alike.fault fault fault') :
      ResolveError.Corresponds alike
        (.unreadable path fault) (.unreadable path' fault')
  | malformed
      {path path' : CanonicalPath}
      (hPath : alike.path path path')
      (error : ParseError) :
      ResolveError.Corresponds alike (.malformed path error)
        (.malformed path' error)
  | circular
      {path path' : CanonicalPath}
      {chain chain' : List CanonicalPath}
      (hPath : alike.path path path')
      (hChain : List.Forall₂ alike.path chain chain') :
      ResolveError.Corresponds alike (.circular path chain)
        (.circular path' chain')
  | conflict
      {path path' : CanonicalPath}
      {clash clash' : MergeConflict}
      (hPath : alike.path path path')
      (hClash : alike.clash clash clash') :
      ResolveError.Corresponds alike (.conflict path clash)
        (.conflict path' clash')
  | tooDeep
      {path path' : CanonicalPath}
      (hPath : alike.path path path') :
      ResolveError.Corresponds alike (.tooDeep path)
        (.tooDeep path')
  | within
      {path path' : CanonicalPath}
      {inner inner' : ResolveError}
      (hPath : alike.path path path')
      (hInner : inner.Corresponds alike inner') :
      ResolveError.Corresponds alike (.within path inner)
        (.within path' inner')

namespace ResolveError.Corresponds

variable {alike : Correspondence}
variable {error error' : ResolveError}

/- Corresponding errors have corresponding causes. -/
theorem rootCause
    (hError : error.Corresponds alike error') :
    error.rootCause.Corresponds alike
      error'.rootCause := by
  induction hError with
  | unreadable hPath hFault =>
      exact .unreadable hPath hFault
  | malformed hPath error => exact .malformed hPath error
  | circular hPath hChain => exact .circular hPath hChain
  | conflict hPath hClash => exact .conflict hPath hClash
  | tooDeep hPath => exact .tooDeep hPath
  | within hPath hInner ih => exact ih

/- Corresponding errors involve corresponding documents. -/
theorem includeChain
    (hError : error.Corresponds alike error') :
    List.Forall₂ alike.path error.includeChain
      error'.includeChain := by
  induction hError with
  | within hPath hInner ih => exact .cons hPath ih
  | unreadable hPath _ => exact .cons hPath .nil
  | malformed hPath _ => exact .cons hPath .nil
  | circular hPath _ => exact .cons hPath .nil
  | conflict hPath _ => exact .cons hPath .nil
  | tooDeep hPath => exact .cons hPath .nil

/- Corresponding errors are of one kind. -/
theorem kind_eq
    (hError : error.Corresponds alike error') :
    error'.kind = error.kind := by
  cases hError <;> rfl

end ResolveError.Corresponds

end Transclusion

------------------------------------------------------------
-- Results
------------------------------------------------------------

namespace Transclusion

/- Results that both fail or both do not, alike. -/
inductive ResultCorresponds
    {ε ε' α α' : Type}
    (errors : ε → ε' → Prop)
    (values : α → α' → Prop) :
    Except ε α → Except ε' α' → Prop where
  | error
      {error : ε}
      {error' : ε'}
      (hError : errors error error') :
      ResultCorresponds errors values (.error error)
        (.error error')
  | ok
      {value : α}
      {value' : α'}
      (hValue : values value value') :
      ResultCorresponds errors values (.ok value)
        (.ok value')

namespace ResultCorresponds

/- A result corresponds to itself by equality. -/
theorem refl
    {ε α : Type}
    (result : Except ε α) :
    ResultCorresponds Eq Eq result result := by
  cases result with
  | error error => exact .error rfl
  | ok value => exact .ok rfl

variable {ε ε' δ δ' α α' : Type}
variable {errors : ε → ε' → Prop}
variable {others : δ → δ' → Prop}
variable {values : α → α' → Prop}
variable {result : Except ε α}
variable {result' : Except ε' α'}

/- What corresponds to a value is a value. -/
theorem exists_of_ok
    {value : α}
    (hResult :
      ResultCorresponds errors values result result')
    (hOk : result = .ok value) :
    ∃ value', result' = .ok value' ∧
      values value value' := by
  cases hResult with
  | error hError => cases hOk
  | @ok _ value' hValue =>
      cases hOk
      exact ⟨value', rfl, hValue⟩

/- What corresponds to an error is an error. -/
theorem exists_of_error
    {error : ε}
    (hResult :
      ResultCorresponds errors values result result')
    (hFails : result = .error error) :
    ∃ error', result' = .error error' ∧
      errors error error' := by
  cases hResult with
  | @error _ error' hError =>
      cases hFails
      exact ⟨error', rfl, hError⟩
  | ok hValue => cases hFails

/- Corresponding errors carried over still correspond. -/
theorem mapError
    {f : ε → δ}
    {f' : ε' → δ'}
    (hResult :
      ResultCorresponds errors values result result')
    (hErrors :
      ∀ error error',
        errors error error' →
          others (f error) (f' error')) :
    ResultCorresponds others values (result.mapError f)
      (result'.mapError f') := by
  cases hResult with
  | error hError => exact .error (hErrors _ _ hError)
  | ok hValue => exact .ok hValue

end ResultCorresponds

end Transclusion

------------------------------------------------------------
-- Runs
------------------------------------------------------------

namespace Transclusion

/- Runs with corresponding steps that end alike. -/
structure Run.Corresponds
    (alike : Correspondence)
    (run run' : Run Value) : Prop where
  steps :
    List.Forall₂ (Step.Corresponds alike) run.steps
      run'.steps
  result :
    ResultCorresponds (ResolveError.Corresponds alike)
      alike.value run.result run'.result

namespace Run.Corresponds

variable {alike : Correspondence}
variable {run run' : Run Value}

/- Runs one after another correspond one by one. -/
theorem bind
    {next next' : Value → Run Value}
    (hRun : run.Corresponds alike run')
    (hNext :
      ∀ value value',
        alike.value value value' →
          (next value).Corresponds alike (next' value')) :
    (run >>= next).Corresponds alike (run' >>= next') := by
  rcases run with ⟨steps, result⟩
  rcases run' with ⟨steps', result'⟩
  rcases hRun with ⟨hSteps, hResult⟩
  cases hResult with
  | error hError =>
      rw [Run.bind_of_error rfl, Run.bind_of_error rfl]
      exact ⟨hSteps, .error hError⟩
  | ok hValue =>
      rw [Run.bind_of_ok rfl, Run.bind_of_ok rfl]
      have hRest := hNext _ _ hValue
      exact
        ⟨List.rel_append hSteps hRest.steps, hRest.result⟩

/- Runs inside corresponding documents correspond. -/
theorem within
    {path path' : CanonicalPath}
    (hPath : alike.path path path')
    (hRun : run.Corresponds alike run') :
    (run.within path).Corresponds alike
      (run'.within path') := by
  refine ⟨hRun.steps, hRun.result.mapError ?_⟩
  intro error error' hError
  exact .within hPath hError

/- Corresponding runs load corresponding documents. -/
theorem files
    (hRun : run.Corresponds alike run') :
    List.Forall₂ alike.path
      (run.steps.filterMap Step.file?)
      (run'.steps.filterMap Step.file?) := by
  apply List.rel_filterMap _ hRun.steps
  intro step step' hStep
  cases hStep with
  | entered hPath depth => exact .none
  | loaded hPath => exact .some hPath
  | warned hWarning => exact .none

/- Corresponding runs raise corresponding warnings. -/
theorem warnings
    (hRun : run.Corresponds alike run') :
    List.Forall₂ (Warning.Corresponds alike)
      (run.steps.filterMap Step.warning?)
      (run'.steps.filterMap Step.warning?) := by
  apply List.rel_filterMap _ hRun.steps
  intro step step' hStep
  cases hStep with
  | entered hPath depth => exact .none
  | loaded hPath => exact .none
  | warned hWarning => exact .some hWarning

end Run.Corresponds

/-
  Resolutions with corresponding documents, loaded from
  corresponding paths with corresponding warnings.
-/
structure Resolution.Corresponds
    (alike : Correspondence)
    (whole whole' : Resolution) : Prop where
  document : alike.value whole.document whole'.document
  files : List.Forall₂ alike.path whole.files whole'.files
  warnings :
    List.Forall₂ (Warning.Corresponds alike) whole.warnings
      whole'.warnings

/-
  Warnings are equal if paths and faults only correspond to
  themselves.
-/
theorem Warning.Corresponds.eq
    {alike : Correspondence}
    {warning warning' : Warning}
    (hWarning : warning.Corresponds alike warning')
    (hPaths :
      ∀ {path path'}, alike.path path path' → path = path')
    (hFaults :
      ∀ {fault fault'},
        alike.fault fault fault' → fault = fault') :
    warning = warning' := by
  cases hWarning with
  | malformedIncludes hPath => rw [hPaths hPath]
  | missingRoot hPath hFault =>
      rw [hPaths hPath, hFaults hFault]

/- Lists of equal elements are equal. -/
theorem eq_of_forall₂
    {α : Type}
    {R : α → α → Prop}
    {as bs : List α}
    (hEqual : ∀ {a b}, R a b → a = b)
    (hRelated : List.Forall₂ R as bs) :
    as = bs := by
  rw [← List.forall₂_eq_eq_eq]
  exact hRelated.imp fun _ _ => hEqual

/-
  Resolutions only differ in their documents if paths and
  faults only correspond to themselves.
-/
theorem Resolution.Corresponds.eq
    {alike : Correspondence}
    {whole whole' : Resolution}
    (hWhole : whole.Corresponds alike whole')
    (hPaths :
      ∀ {path path'}, alike.path path path' → path = path')
    (hFaults :
      ∀ {fault fault'},
        alike.fault fault fault' → fault = fault') :
    whole' = { whole with document := whole'.document } := by
  have hFiles := eq_of_forall₂ hPaths hWhole.files
  have hWarnings :=
    eq_of_forall₂
      (fun hWarning => hWarning.eq hPaths hFaults)
      hWhole.warnings
  rw [hFiles, hWarnings]

/- Corresponding runs are reported alike. -/
theorem Run.Corresponds.resolution
    {alike : Correspondence}
    {run run' : Run Value}
    (hRun : run.Corresponds alike run') :
    ResultCorresponds (ResolveError.Corresponds alike)
      (Resolution.Corresponds alike) run.resolution
      run'.resolution := by
  have hFiles := hRun.files
  have hWarnings := hRun.warnings
  rcases run with ⟨steps, result⟩
  rcases run' with ⟨steps', result'⟩
  rcases hRun with ⟨_hSteps, hResult⟩
  cases hResult with
  | error hError => exact .error hError
  | ok hValue => exact .ok ⟨hValue, hFiles, hWarnings⟩

end Transclusion

------------------------------------------------------------
-- Sources
------------------------------------------------------------

namespace Transclusion

namespace Correspondence

/-
  Documents that are split into corresponding parts: as many
  references to corresponding paths, and contents alike.
-/
structure Splits
    (alike : Correspondence)
    (path path' : CanonicalPath)
    (parts parts' : Parts) : Prop where
  references :
    List.Forall₂
      (fun reference reference' =>
        alike.path (resolveInclude path reference)
          (resolveInclude path' reference'))
      parts.references parts'.references
  wellFormed : parts'.wellFormed = parts.wellFormed
  content : alike.value parts.content parts'.content

/-
  What is found under corresponding paths: nothing, no
  document, or documents with corresponding parts.
-/
inductive Finds
    (alike : Correspondence)
    (config : Config)
    (path path' : CanonicalPath) :
    Except Fault String → Except Fault String → Prop where
  | missing
      {fault fault' : Fault}
      (hFault : alike.fault fault fault') :
      Finds alike config path path' (.error fault)
        (.error fault')
  | malformed
      {content content' : String}
      {error : ParseError}
      (hParse : parseText content = .error error)
      (hParse' : parseText content' = .error error) :
      Finds alike config path path' (.ok content)
        (.ok content')
  | found
      {text text' : Except Fault String}
      {document document' : Value}
      (hDocument : document? text = some document)
      (hDocument' : document? text' = some document')
      (hSplits :
        alike.Splits path path' (config.split document)
          (config.split document')) :
      Finds alike config path path' text text'

/-
  A correspondence between two sources that resolutions
  cannot break.
-/
structure Respects
    (alike : Correspondence)
    (source source' : Source)
    (config : Config) : Prop where
  unique :
    ∀ {path path' other other'},
      alike.path path path' →
        alike.path other other' →
          (path = other ↔ path' = other')
  finds :
    ∀ {path path'},
      alike.path path path' →
        alike.Finds config path path' (source path)
          (source' path')
  empty : alike.value .empty .empty
  merge :
    ∀ {first first' second second'},
      alike.value first first' →
        alike.value second second' →
          ResultCorresponds alike.clash alike.value
            (merge config.merge first second)
            (merge config.merge first' second')

end Correspondence

/- Corresponding lists hold corresponding elements. -/
theorem mem_iff_of_forall₂
    {α β : Type}
    {R : α → β → Prop}
    {as : List α}
    {bs : List β}
    {a : α}
    {b : β}
    (hUnique :
      ∀ {a' b'}, R a' b' → (a = a' ↔ b = b'))
    (hRelated : List.Forall₂ R as bs) :
    a ∈ as ↔ b ∈ bs := by
  induction hRelated with
  | nil => simp
  | cons hFirst _hRest ih =>
      rw [List.mem_cons, List.mem_cons, hUnique hFirst, ih]

end Transclusion

------------------------------------------------------------
-- Documents
------------------------------------------------------------

namespace Transclusion

namespace Correspondence.Respects

variable {alike : Correspondence}
variable {source source' : Source}
variable {config : Config}
variable {path path' : CanonicalPath}

/- Corresponding values merge alike for a document. -/
theorem mergeFor_corresponds
    {first first' second second' : Value}
    (hRespects : alike.Respects source source' config)
    (hPath : alike.path path path')
    (hFirst : alike.value first first')
    (hSecond : alike.value second second') :
    (mergeFor config path first second).Corresponds alike
      (mergeFor config path' first' second') := by
  have hMerge := hRespects.merge hFirst hSecond
  refine ⟨.nil, hMerge.mapError ?_⟩
  intro clash clash' hClash
  exact .conflict hPath hClash

variable {resolve resolve' : CanonicalPath → Run Value}

/- Corresponding includes are merged alike. -/
theorem mergeIncludes_corresponds
    {references references' : List String}
    {merged merged' : Value}
    (hRespects : alike.Respects source source' config)
    (hPath : alike.path path path')
    (hResolve :
      ∀ {included included'},
        alike.path included included' →
          (resolve included).Corresponds alike
            (resolve' included'))
    (hReferences :
      List.Forall₂
        (fun reference reference' =>
          alike.path (resolveInclude path reference)
            (resolveInclude path' reference'))
        references references')
    (hMerged : alike.value merged merged') :
    (mergeIncludes config path resolve references
        merged).Corresponds alike
      (mergeIncludes config path' resolve' references'
        merged') := by
  induction hReferences generalizing merged merged' with
  | nil => exact ⟨.nil, .ok hMerged⟩
  | cons hReference _hRest ih =>
      unfold mergeIncludes
      have hIncluded := hResolve hReference
      apply (hIncluded.within hPath).bind
      intro included included' hValue
      have hNext :=
        hRespects.mergeFor_corresponds hPath hMerged hValue
      apply hNext.bind
      intro next next' hNext
      exact ih hNext

/- Corresponding documents are assembled alike. -/
theorem assemble_corresponds
    {document document' : Value}
    (hRespects : alike.Respects source source' config)
    (hPath : alike.path path path')
    (hResolve :
      ∀ {included included'},
        alike.path included included' →
          (resolve included).Corresponds alike
            (resolve' included'))
    (hSplits :
      alike.Splits path path' (config.split document)
        (config.split document')) :
    (assemble config path resolve document).Corresponds
      alike (assemble config path' resolve' document') := by
  unfold assemble
  have hIncludes :=
    hRespects.mergeIncludes_corresponds hPath hResolve
      hSplits.references hRespects.empty
  apply hIncludes.bind
  intro merged merged' hMerged
  exact
    hRespects.mergeFor_corresponds hPath hMerged
      hSplits.content

/- Corresponding documents raise corresponding warnings. -/
theorem ownWarnings_corresponds
    {document document' : Value}
    (hPath : alike.path path path')
    (hSplits :
      alike.Splits path path' (config.split document)
        (config.split document')) :
    List.Forall₂ (Warning.Corresponds alike)
      (config.ownWarnings path document)
      (config.ownWarnings path' document') := by
  unfold Config.ownWarnings
  rw [hSplits.wellFormed]
  split
  · exact .nil
  · exact .cons (.malformedIncludes hPath) .nil

/-
  From corresponding paths below corresponding ancestors,
  documents are resolved alike.
-/
theorem resolveDocument_corresponds
    {bound : Nat}
    {ancestors ancestors' : List CanonicalPath}
    {isRoot : Bool}
    (hRespects : alike.Respects source source' config)
    (hAncestors :
      List.Forall₂ alike.path ancestors ancestors')
    (hPath : alike.path path path') :
    (resolveDocument source config bound ancestors path
        isRoot).Corresponds alike
      (resolveDocument source' config bound ancestors' path'
        isRoot) := by
  induction bound generalizing
      ancestors ancestors' path path' isRoot with
  | zero => exact ⟨.nil, .error (.tooDeep hPath)⟩
  | succ bound ih =>
      have hBelow :
          List.Forall₂ alike.path (ancestors ++ [path])
            (ancestors' ++ [path']) :=
        List.rel_append hAncestors (.cons hPath .nil)
      have hMemIff :
          path ∈ ancestors ↔ path' ∈ ancestors' :=
        mem_iff_of_forall₂ (hRespects.unique hPath)
          hAncestors
      have hEntered :
          Step.Corresponds alike
            (.entered path (ancestors.length + 1))
            (.entered path' (ancestors'.length + 1)) := by
        rw [hAncestors.length_eq]
        exact .entered hPath _
      by_cases hMem : path ∈ ancestors
      · have hMem' := hMemIff.mp hMem
        rw [resolveDocument_of_mem hMem,
          resolveDocument_of_mem hMem']
        exact ⟨.nil, .error (.circular hPath hBelow)⟩
      · have hMem' := mt hMemIff.mpr hMem
        have hFinds := hRespects.finds hPath
        generalize hText : source path = text at hFinds
        generalize hText' : source' path' = text' at hFinds
        cases hFinds with
        | missing hFault =>
            rw [resolveDocument_of_missing hMem hText,
              resolveDocument_of_missing hMem' hText']
            split
            · have hWarning :=
                Warning.Corresponds.missingRoot hPath hFault
              exact
                ⟨.cons hEntered
                    (.cons (.warned hWarning) .nil),
                  .ok hRespects.empty⟩
            · exact
                ⟨.cons hEntered .nil,
                  .error (.unreadable hPath hFault)⟩
        | malformed hParse hParse' =>
            rw [resolveDocument_of_malformed hMem hText
                hParse,
              resolveDocument_of_malformed hMem' hText'
                hParse']
            exact
              ⟨.cons hEntered .nil,
                .error (.malformed hPath _)⟩
        | @found _ _ document document' hDocument hDocument'
            hSplits =>
            rw [← hText] at hDocument
            rw [← hText'] at hDocument'
            rw [resolveDocument_of_document hMem hDocument,
              resolveDocument_of_document hMem' hDocument']
            have hIncluded :
                ∀ {included included'},
                  alike.path included included' →
                    (resolveDocument source config bound
                        (ancestors ++ [path]) included
                        false).Corresponds alike
                      (resolveDocument source' config bound
                        (ancestors' ++ [path']) included'
                        false) :=
              fun hIncluded => ih hBelow hIncluded
            have hWhole :=
              hRespects.assemble_corresponds hPath hIncluded
                hSplits
            have hWarnings :
                List.Forall₂ (Step.Corresponds alike)
                  ((config.ownWarnings path document).map
                    Step.warned)
                  ((config.ownWarnings path' document').map
                    Step.warned) := by
              rw [List.forall₂_map_left_iff,
                List.forall₂_map_right_iff]
              have hOwn :=
                ownWarnings_corresponds hPath hSplits
              exact hOwn.imp fun _ _ => .warned
            have hSteps :=
              List.rel_append hWarnings hWhole.steps
            exact
              ⟨.cons hEntered (.cons (.loaded hPath) hSteps),
                hWhole.result⟩

end Correspondence.Respects

end Transclusion

------------------------------------------------------------
-- Stores
------------------------------------------------------------

namespace Transclusion

/- Failures to resolve that correspond. -/
inductive Failure.Corresponds
    (alike : Correspondence) : Failure → Failure → Prop where
  | resolve
      {error error' : ResolveError}
      (hError : error.Corresponds alike error') :
      Failure.Corresponds alike (.resolve error)
        (.resolve error')

namespace Store

variable {store store' : Store}
variable {directory directory' : Except Fault String}
variable {config : Config}
variable {alike : Correspondence}
variable {root root' : CanonicalPath}

/-
  Stores run alike from corresponding paths.  Both runs are
  those with a bound above the documents of either store.
-/
theorem run_corresponds
    (hRespects :
      alike.Respects store.load store'.load config)
    (hRoot : alike.path root root') :
    ((store.resolverFrom directory config).run
        root).Corresponds alike
      ((store'.resolverFrom directory' config).run
        root') := by
  let bound := max store.keys.card store'.keys.card + 1
  have hBound : store.keys.card < bound := by
    dsimp [bound]
    omega
  have hBound' : store'.keys.card < bound := by
    dsimp [bound]
    omega
  rw [← run_eq_of_lt hBound, ← run_eq_of_lt hBound']
  exact hRespects.resolveDocument_corresponds .nil hRoot

/- Stores report alike from corresponding paths. -/
theorem report_corresponds
    {path path' : String}
    (hRespects :
      alike.Respects store.load store'.load config)
    (hRoot :
      (store.resolverFrom directory config).canonicalize
          path =
        .ok root)
    (hRoot' :
      (store'.resolverFrom directory' config).canonicalize
          path' =
        .ok root')
    (hAlike : alike.path root root') :
    ResultCorresponds (Failure.Corresponds alike)
      (Resolution.Corresponds alike)
      ((store.resolverFrom directory config).report path)
      ((store'.resolverFrom directory' config).report
        path') := by
  rw [Resolver.report_eq hRoot, Resolver.report_eq hRoot']
  have hRun :
      ((store.resolverFrom directory config).run
          root).Corresponds alike
        ((store'.resolverFrom directory' config).run
          root') :=
    run_corresponds hRespects hAlike
  exact hRun.resolution.mapError fun _ _ => .resolve

end Store

end Transclusion
