import Transclusion.Proofs.Resolve.Composition

/-
  How a resolution fails.

  Key definitions include:
    * `Transclusion.Resolves`
    * `Transclusion.Inherits`
    * `Transclusion.Follows`
    * `Transclusion.Clashes`
    * `Transclusion.IsActive`
    * `Transclusion.Arises`

  Key theorems include:
    * `Transclusion.mergeIncludes_result_eq_error`
    * `Transclusion.assemble_result_eq_error`
    * `Transclusion.arises_of_result_eq_error`

  A run fails at the first document, depth first and in the
  order of the references, that is missing, malformed,
  already active or in conflict with what was merged before
  it.  The bound is never a reason if the source holds few
  enough documents.
-/

------------------------------------------------------------
-- What Comes Before a Failure
------------------------------------------------------------

namespace Transclusion

/- A document resolves below ancestors, with some bound. -/
def Resolves
    (source : Source)
    (config : Config)
    (ancestors : List CanonicalPath)
    (path : CanonicalPath)
    (value : Value) : Prop :=
  ∃ bound : Nat,
    (resolveDocument source config bound ancestors path
        false).result =
      .ok value

/-
  What a document inherits from references: each of them
  resolves, and the documents merge in order.
-/
def Inherits
    (config : Config)
    (resolves : CanonicalPath → Value → Prop)
    (path : CanonicalPath)
    (references : List String)
    (inherited : Value) : Prop :=
  ∃ documents : List Value,
    List.Forall₂
        (fun reference document =>
          resolves (resolveInclude path reference) document)
        references documents ∧
      mergeAll config.merge documents = .ok inherited

/-
  A document is followed to an include if the references
  before it resolve and merge.
-/
inductive Follows
    (source : Source)
    (config : Config)
    (resolves : CanonicalPath → Value → Prop)
    (path : CanonicalPath) : CanonicalPath → Prop where
  | intro
      {document inherited : Value}
      {before after : List String}
      {reference : String}
      (hDocument : document? (source path) = some document)
      (hReferences :
        (config.split document).references =
          before ++ reference :: after)
      (hBefore :
        Inherits config resolves path before inherited) :
      Follows source config resolves path
        (resolveInclude path reference)

/-
  A document clashes where the merge of what it includes and
  of its own content first fails.
-/
inductive Clashes
    (config : Config)
    (resolves : CanonicalPath → Value → Prop)
    (path : CanonicalPath)
    (document : Value) : MergeConflict → Prop where
  | included
      {inherited included : Value}
      {before after : List String}
      {reference : String}
      {clash : MergeConflict}
      (hReferences :
        (config.split document).references =
          before ++ reference :: after)
      (hBefore :
        Inherits config resolves path before inherited)
      (hIncluded :
        resolves (resolveInclude path reference) included)
      (hClash :
        merge config.merge inherited included =
          .error clash) :
      Clashes config resolves path document clash
  | content
      {inherited : Value}
      {clash : MergeConflict}
      (hInherits :
        Inherits config resolves path
          (config.split document).references inherited)
      (hClash :
        merge config.merge inherited
            (config.split document).content =
          .error clash) :
      Clashes config resolves path document clash

variable {config : Config}
variable {path : CanonicalPath}
variable {resolves resolves' : CanonicalPath → Value → Prop}

/- Inheritance carries over to what resolves as well. -/
theorem Inherits.imp
    {references : List String}
    {inherited : Value}
    (hImp :
      ∀ reference document,
        resolves (resolveInclude path reference) document →
          resolves' (resolveInclude path reference)
            document)
    (hInherits :
      Inherits config resolves path references
        inherited) :
    Inherits config resolves' path references inherited := by
  rcases hInherits with ⟨documents, hResolves, hMerge⟩
  exact ⟨documents, hResolves.imp hImp, hMerge⟩

/- What is followed carries over to what resolves as well. -/
theorem Follows.imp
    {source : Source}
    {included : CanonicalPath}
    (hImp :
      ∀ reference document,
        resolves (resolveInclude path reference) document →
          resolves' (resolveInclude path reference)
            document)
    (hFollows :
      Follows source config resolves path included) :
    Follows source config resolves' path included := by
  rcases hFollows with ⟨hDocument, hReferences, hBefore⟩
  exact .intro hDocument hReferences (hBefore.imp hImp)

/- What is followed from a rooted path is rooted. -/
theorem Follows.isRooted
    {source : Source}
    {included : CanonicalPath}
    (hRooted : path.IsRooted)
    (hFollows :
      Follows source config resolves path included) :
    included.IsRooted := by
  rcases hFollows with ⟨_hDocument, _hReferences, _hBefore⟩
  exact hRooted.resolveInclude _

/- A clash carries over to what resolves as well. -/
theorem Clashes.imp
    {document : Value}
    {clash : MergeConflict}
    (hImp :
      ∀ reference document,
        resolves (resolveInclude path reference) document →
          resolves' (resolveInclude path reference)
            document)
    (hClashes :
      Clashes config resolves path document clash) :
    Clashes config resolves' path document clash := by
  cases hClashes with
  | included hReferences hBefore hIncluded hClash =>
      exact
        .included hReferences (hBefore.imp hImp)
          (hImp _ _ hIncluded) hClash
  | content hInherits hClash =>
      exact .content (hInherits.imp hImp) hClash

end Transclusion

------------------------------------------------------------
-- Failures of One Document
------------------------------------------------------------

namespace Transclusion

variable {config : Config}
variable {path : CanonicalPath}
variable {resolve : CanonicalPath → Run Value}
variable {error : ResolveError}

/-
  The merge of includes fails at a reference before which
  all resolve and merge, and there either the include or its
  merge fails.
-/
theorem mergeIncludes_result_eq_error
    {references : List String}
    {merged : Value}
    (hError :
      (mergeIncludes config path resolve references
          merged).result =
        .error error) :
    ∃ before reference after documents inherited,
      references = before ++ reference :: after ∧
        List.Forall₂
          (fun reference document =>
            (resolve
                (resolveInclude path reference)).result =
              .ok document)
          before documents ∧
        documents.foldlM (merge config.merge) merged =
          .ok inherited ∧
        ((∃ inner,
            (resolve
                (resolveInclude path reference)).result =
              .error inner ∧
            error = .within path inner) ∨
          ∃ included clash,
            (resolve
                (resolveInclude path reference)).result =
              .ok included ∧
            merge config.merge inherited included =
              .error clash ∧
            error = .conflict path clash) := by
  induction references generalizing merged with
  | nil => cases hError
  | cons reference rest ih =>
      unfold mergeIncludes at hError
      rw [Run.bind_result_eq_error_iff] at hError
      rcases hError with hInclude |
        ⟨included, hIncluded, hRest⟩
      · rcases mapError_eq_error_iff.mp hInclude with
          ⟨inner, hInner, hWithin⟩
        exact
          ⟨[], reference, rest, [], merged, rfl, .nil, rfl,
            .inl ⟨inner, hInner, hWithin.symm⟩⟩
      · have hResolved := mapError_eq_ok_iff.mp hIncluded
        rw [Run.bind_result_eq_error_iff] at hRest
        rcases hRest with hMerge | ⟨next, hNext, hRest⟩
        · rcases mapError_eq_error_iff.mp hMerge with
            ⟨clash, hClash, hConflict⟩
          exact
            ⟨[], reference, rest, [], merged, rfl, .nil,
              rfl,
              .inr
                ⟨included, clash, hResolved, hClash,
                  hConflict.symm⟩⟩
        · have hMerged := mapError_eq_ok_iff.mp hNext
          rcases ih hRest with
            ⟨before, failing, after, documents, inherited,
              hReferences, hBefore, hFold, hFails⟩
          refine
            ⟨reference :: before, failing, after,
              included :: documents, inherited,
              by rw [hReferences, List.cons_append],
              .cons hResolved hBefore, ?_, hFails⟩
          rw [List.foldlM_cons, hMerged]
          exact hFold

/- Includes that are merged resolve and merge in order. -/
theorem mergeIncludes_result_eq_ok
    {references : List String}
    {merged inherited : Value}
    (hOk :
      (mergeIncludes config path resolve references
          merged).result =
        .ok inherited) :
    ∃ documents : List Value,
      List.Forall₂
        (fun reference document =>
          (resolve
              (resolveInclude path reference)).result =
            .ok document)
        references documents ∧
      documents.foldlM (merge config.merge) merged =
        .ok inherited := by
  rcases Run.exists_resolution hOk with
    ⟨whole, hWhole, rfl⟩
  rcases mergeIncludes_resolution_eq_ok_iff.mp hWhole with
    ⟨included, hIncluded, hFold, _hFiles, _hWarnings⟩
  refine ⟨included.map (·.document), ?_, hFold⟩
  rw [List.forall₂_map_right_iff]
  refine hIncluded.imp ?_
  intro reference resolution hResolved
  exact (Run.resolution_eq_ok_iff.mp hResolved).1

/-
  A document fails inside one of its includes or in
  conflict.
-/
theorem assemble_result_eq_error
    {document : Value}
    (hError :
      (assemble config path resolve document).result =
        .error error) :
    (∃ before reference after inherited inner,
        (config.split document).references =
          before ++ reference :: after ∧
        Inherits config
          (fun included value =>
            (resolve included).result = .ok value)
          path before inherited ∧
        (resolve (resolveInclude path reference)).result =
          .error inner ∧
        error = .within path inner) ∨
      ∃ clash,
        Clashes config
          (fun included value =>
            (resolve included).result = .ok value)
          path document clash ∧
        error = .conflict path clash := by
  unfold assemble at hError
  rw [Run.bind_result_eq_error_iff] at hError
  rcases hError with hIncludes | ⟨inherited, hOk, hMerge⟩
  · rcases mergeIncludes_result_eq_error hIncludes with
      ⟨before, reference, after, documents, inherited,
        hReferences, hBefore, hFold, hFails⟩
    rcases hFails with ⟨inner, hInner, hWithin⟩ |
      ⟨included, clash, hIncluded, hClash, hConflict⟩
    · exact
        .inl
          ⟨before, reference, after, inherited, inner,
            hReferences, ⟨documents, hBefore, hFold⟩,
            hInner, hWithin⟩
    · exact
        .inr
          ⟨clash,
            .included hReferences
              ⟨documents, hBefore, hFold⟩ hIncluded hClash,
            hConflict⟩
  · rcases mergeIncludes_result_eq_ok hOk with
      ⟨documents, hIncludes, hFold⟩
    rcases mapError_eq_error_iff.mp hMerge with
      ⟨clash, hClash, hConflict⟩
    exact
      .inr
        ⟨clash,
          .content ⟨documents, hIncludes, hFold⟩ hClash,
          hConflict.symm⟩

end Transclusion

------------------------------------------------------------
-- Active Documents
------------------------------------------------------------

namespace Transclusion

/- Documents being resolved are different and found. -/
structure IsActive
    (source : Source)
    (ancestors : List CanonicalPath) : Prop where
  nodup : ancestors.Nodup
  found :
    ∀ path ∈ ancestors, ∃ document,
      document? (source path) = some document

namespace IsActive

variable {source : Source}
variable {ancestors : List CanonicalPath}

/- At first, no document is being resolved. -/
theorem nil :
    IsActive source [] :=
  ⟨List.nodup_nil, by simp⟩

/- A new document that is found becomes active. -/
theorem append
    {path : CanonicalPath}
    {document : Value}
    (hActive : IsActive source ancestors)
    (hNew : path ∉ ancestors)
    (hDocument : document? (source path) = some document) :
    IsActive source (ancestors ++ [path]) := by
  constructor
  · rw [List.nodup_append_comm]
    exact List.nodup_cons.mpr ⟨hNew, hActive.nodup⟩
  · intro other hOther
    rcases List.mem_append.mp hOther with hOld | hPath
    · exact hActive.found other hOld
    · rw [List.mem_singleton.mp hPath]
      exact ⟨document, hDocument⟩

/- No more documents are active than the source holds. -/
theorem length_le
    {count : Nat}
    (hHolds : Source.HoldsAtMost source count)
    (hActive : IsActive source ancestors) :
    ancestors.length ≤ count := by
  refine hHolds ancestors hActive.nodup ?_
  intro path hPath
  rcases hActive.found path hPath with
    ⟨document, hDocument⟩
  rcases document?_eq_some_iff.mp hDocument with
    ⟨content, hText, _hParse⟩
  exact ⟨content, hText⟩

end IsActive

/- What is followed is followed from an active document. -/
theorem Follows.isActive
    {source : Source}
    {config : Config}
    {resolves : CanonicalPath → Value → Prop}
    {ancestors : List CanonicalPath}
    {path included : CanonicalPath}
    (hActive : IsActive source ancestors)
    (hNew : path ∉ ancestors)
    (hFollows :
      Follows source config resolves path included) :
    IsActive source (ancestors ++ [path]) := by
  rcases hFollows with ⟨hDocument, _hReferences, _hBefore⟩
  exact hActive.append hNew hDocument

end Transclusion

------------------------------------------------------------
-- Causes
------------------------------------------------------------

namespace Transclusion

/-
  The errors a document can raise below its ancestors.  The
  chain of a cycle is that of the documents being resolved.
-/
inductive Arises
    (source : Source)
    (config : Config)
    (resolves : CanonicalPath → Value → Prop) :
    List CanonicalPath → CanonicalPath → ResolveError →
      Prop where
  | missing
      {ancestors : List CanonicalPath}
      {path : CanonicalPath}
      {fault : Fault}
      (hNew : path ∉ ancestors)
      (hMissing : source path = .error fault) :
      Arises source config resolves ancestors path
        (.unreadable path fault)
  | malformed
      {ancestors : List CanonicalPath}
      {path : CanonicalPath}
      {content : String}
      {error : ParseError}
      (hNew : path ∉ ancestors)
      (hText : source path = .ok content)
      (hParse : parseText content = .error error) :
      Arises source config resolves ancestors path
        (.malformed path error)
  | circular
      {ancestors : List CanonicalPath}
      {path : CanonicalPath}
      (hMem : path ∈ ancestors) :
      Arises source config resolves ancestors path
        (.circular path (ancestors ++ [path]))
  | conflict
      {ancestors : List CanonicalPath}
      {path : CanonicalPath}
      {document : Value}
      {clash : MergeConflict}
      (hNew : path ∉ ancestors)
      (hDocument :
        document? (source path) = some document)
      (hClashes :
        Clashes config resolves path document clash) :
      Arises source config resolves ancestors path
        (.conflict path clash)
  | within
      {ancestors : List CanonicalPath}
      {path included : CanonicalPath}
      {inner : ResolveError}
      (hNew : path ∉ ancestors)
      (hFollows :
        Follows source config resolves path included)
      (hInner :
        Arises source config resolves (ancestors ++ [path])
          included inner) :
      Arises source config resolves ancestors path
        (.within path inner)

variable {source : Source}
variable {config : Config}
variable {bound : Nat}
variable {ancestors : List CanonicalPath}
variable {path : CanonicalPath}
variable {isRoot : Bool}
variable {error : ResolveError}

/-
  With a bound above the number of documents that are not
  yet active, a failure has a cause.
-/
theorem arises_of_result_eq_error
    {count : Nat}
    (hHolds : Source.HoldsAtMost source count)
    (hActive : IsActive source ancestors)
    (hBound : count < ancestors.length + bound)
    (hError :
      (resolveDocument source config bound ancestors path
          isRoot).result =
        .error error) :
    Arises source config (Resolves source config [])
      ancestors path error := by
  induction bound generalizing
      ancestors path isRoot error with
  | zero =>
      have hLength := hActive.length_le hHolds
      omega
  | succ bound ih =>
      by_cases hMem : path ∈ ancestors
      · rw [resolveDocument_of_mem hMem] at hError
        cases hError
        exact .circular hMem
      · rcases lookup_cases (source path) with
          ⟨fault, hMissing⟩ |
          ⟨content, problem, hText, hParse⟩ |
          ⟨document, hDocument⟩
        · rw [resolveDocument_of_missing hMem
            hMissing] at hError
          split at hError
          · cases hError
          · cases hError
            exact .missing hMem hMissing
        · rw [resolveDocument_of_malformed hMem hText
            hParse] at hError
          cases hError
          exact .malformed hMem hText hParse
        · rw [resolveDocument_of_document hMem
            hDocument] at hError
          have hAlone :
              ∀ reference value,
                (resolveDocument source config bound
                      (ancestors ++ [path])
                      (resolveInclude path reference)
                      false).result =
                    .ok value →
                  Resolves source config []
                    (resolveInclude path reference)
                    value := by
            intro reference value hOk
            exact
              ⟨bound,
                resolveDocument_result_mono
                  (Nat.le_refl bound) hOk⟩
          rcases assemble_result_eq_error hError with
            ⟨before, reference, after, inherited, inner,
              hReferences, hBefore, hInner, rfl⟩ |
            ⟨clash, hClashes, rfl⟩
          · refine
              .within hMem
                (.intro hDocument hReferences
                  (hBefore.imp hAlone))
                (ih (hActive.append hMem hDocument) ?_
                  hInner)
            rw [List.length_append, List.length_singleton]
            omega
          · exact
              .conflict hMem hDocument
                (hClashes.imp hAlone)

/- A cause carries over to what resolves as well. -/
theorem Arises.imp
    {resolves resolves' : CanonicalPath → Value → Prop}
    (hImp :
      ∀ included : CanonicalPath, included.IsRooted →
        ∀ document,
          resolves included document →
            resolves' included document)
    (hRooted : path.IsRooted)
    (hArises :
      Arises source config resolves ancestors path error) :
    Arises source config resolves' ancestors path error := by
  induction hArises with
  | missing hNew hMissing => exact .missing hNew hMissing
  | malformed hNew hText hParse =>
      exact .malformed hNew hText hParse
  | circular hMem => exact .circular hMem
  | conflict hNew hDocument hClashes =>
      have hImpHere := fun reference =>
        hImp _ (hRooted.resolveInclude reference)
      exact
        .conflict hNew hDocument (hClashes.imp hImpHere)
  | within hNew hFollows hInner ih =>
      have hImpHere := fun reference =>
        hImp _ (hRooted.resolveInclude reference)
      exact
        .within hNew (hFollows.imp hImpHere)
          (ih (hFollows.isRooted hRooted))

/- A cause is never that the bound is met. -/
theorem Arises.rootCause_ne_tooDeep
    {resolves : CanonicalPath → Value → Prop}
    (hArises :
      Arises source config resolves ancestors path error)
    (deep : CanonicalPath) :
    error.rootCause ≠ .tooDeep deep := by
  induction hArises with
  | missing hNew hMissing => exact ResolveError.noConfusion
  | malformed hNew hText hParse =>
      exact ResolveError.noConfusion
  | circular hMem => exact ResolveError.noConfusion
  | conflict hNew hDocument hClashes =>
      exact ResolveError.noConfusion
  | within hNew hFollows hInner ih => exact ih

end Transclusion

------------------------------------------------------------
-- Failures of a Store
------------------------------------------------------------

namespace Transclusion

namespace Store

variable {store : Store}
variable {directory : Except Fault String}
variable {config : Config}
variable {root : CanonicalPath}

/- A document of a store that does not resolve has a cause. -/
theorem arises_of_run_eq_error
    {error : ResolveError}
    (hError :
      ((store.resolverFrom directory config).run
          root).result =
        .error error) :
    Arises store.load config
      (Resolves store.load config []) [] root error := by
  have hSize := card_keys_le_size store
  rw [run_resolverFrom] at hError
  refine
    arises_of_result_eq_error
      (holdsAtMost_card_keys store) .nil ?_ hError
  rw [List.length_nil]
  omega

end Store

end Transclusion
