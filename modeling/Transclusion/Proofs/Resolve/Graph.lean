import Mathlib.Logic.Relation
import Transclusion.Proofs.Merge.Total
import Transclusion.Proofs.Resolve.Depth

/-
  Which documents resolve, by the graph of their includes.

  Key definitions include:
    * `Transclusion.Includes`
    * `Transclusion.IsSound`

  Key theorems include:
    * `Transclusion.IsSound.not_arises`
    * `Transclusion.Resolves.of_reflTransGen`
    * `Transclusion.Store.exists_resolve_iff`

  If no merge can fail, a document resolves exactly if every
  document that it leads to is found and none of them leads
  to itself.  The documents being resolved are then those
  that lead to the next one, so that one met again closes a
  cycle, and a document on a cycle is met again below itself.
-/

------------------------------------------------------------
-- Graphs of Includes
------------------------------------------------------------

namespace Transclusion

open Relation

/-
  A document that is found includes what its references
  name.
-/
def Includes
    (source : Source)
    (config : Config)
    (path included : CanonicalPath) : Prop :=
  ∃ document,
    document? (source path) = some document ∧
      ∃ reference ∈ (config.split document).references,
        included = resolveInclude path reference

/-
  Every document that a path leads to is found, and none of
  them leads to itself.
-/
structure IsSound
    (source : Source)
    (config : Config)
    (path : CanonicalPath) : Prop where
  found :
    ∀ included,
      ReflTransGen (Includes source config) path included →
        ∃ document,
          document? (source included) = some document
  acyclic :
    ∀ included,
      ReflTransGen (Includes source config) path included →
        ¬ TransGen (Includes source config) included
          included

variable {source : Source}
variable {config : Config}
variable {path included : CanonicalPath}

/- A document includes what it is followed to. -/
theorem Follows.includes
    {resolves : CanonicalPath → Value → Prop}
    (hFollows :
      Follows source config resolves path included) :
    Includes source config path included := by
  cases hFollows with
  | @intro document _ before after reference hDocument
      hReferences hBefore =>
      refine ⟨document, hDocument, reference, ?_, rfl⟩
      rw [hReferences]
      exact List.mem_append_right _ List.mem_cons_self

/- What a sound document includes is sound. -/
theorem IsSound.of_includes
    (hSound : IsSound source config path)
    (hIncludes : Includes source config path included) :
    IsSound source config included := by
  constructor
  · intro other hLeads
    exact hSound.found other (.head hIncludes hLeads)
  · intro other hLeads
    exact hSound.acyclic other (.head hIncludes hLeads)

end Transclusion

------------------------------------------------------------
-- Sound Documents
------------------------------------------------------------

namespace Transclusion

open Relation

variable {config : Config}

/- Without a policy for errors, nothing clashes. -/
theorem not_clashes
    {resolves : CanonicalPath → Value → Prop}
    {path : CanonicalPath}
    {document : Value}
    {clash : MergeConflict}
    (hPolicy : config.merge.keyPolicy ≠ .error) :
    ¬ Clashes config resolves path document clash := by
  intro hClashes
  cases hClashes with
  | included hReferences hBefore hIncluded hClash =>
      exact merge_ne_error hPolicy _ _ _ hClash
  | content hInherits hClash =>
      exact merge_ne_error hPolicy _ _ _ hClash

/-
  Below ancestors that lead to it, a sound document has no
  error.
-/
theorem IsSound.not_arises
    {source : Source}
    {resolves : CanonicalPath → Value → Prop}
    {ancestors : List CanonicalPath}
    {path : CanonicalPath}
    {error : ResolveError}
    (hPolicy : config.merge.keyPolicy ≠ .error)
    (hSound : IsSound source config path)
    (hAbove :
      ∀ ancestor ∈ ancestors,
        TransGen (Includes source config) ancestor path) :
    ¬ Arises source config resolves ancestors path
      error := by
  intro hArises
  induction hArises with
  | missing hNew hMissing =>
      rcases hSound.found _ .refl with ⟨document, hFound⟩
      rw [hMissing] at hFound
      cases hFound
  | malformed hNew hText hParse =>
      rcases hSound.found _ .refl with ⟨document, hFound⟩
      rcases document?_eq_some_iff.mp hFound with
        ⟨content, hContent, hParsed⟩
      rw [hText, Except.ok.injEq] at hContent
      subst hContent
      rw [hParse] at hParsed
      cases hParsed
  | circular hMem =>
      exact hSound.acyclic _ .refl (hAbove _ hMem)
  | conflict hNew hDocument hClashes =>
      exact not_clashes hPolicy hClashes
  | within hNew hFollows hInner ih =>
      refine ih (hSound.of_includes hFollows.includes) ?_
      intro ancestor hAncestor
      rcases List.mem_append.mp hAncestor with hOld | hPath
      · exact (hAbove ancestor hOld).tail hFollows.includes
      · rw [List.mem_singleton.mp hPath]
        exact .single hFollows.includes

end Transclusion

------------------------------------------------------------
-- Documents That Resolve
------------------------------------------------------------

namespace Transclusion

open Relation

namespace Resolves

variable {source : Source}
variable {config : Config}
variable {ancestors : List CanonicalPath}
variable {path included : CanonicalPath}
variable {value : Value}

/- What resolves is new and found. -/
theorem new_and_found
    (hResolves :
      Resolves source config ancestors path value) :
    path ∉ ancestors ∧
      ∃ document,
        document? (source path) = some document := by
  rcases hResolves with ⟨bound, hOk⟩
  rcases resolveDocument_result_eq_ok_cases hOk with
    ⟨hNew, ⟨hRoot, _hLenient, _hMissing⟩ | hFound⟩
  · cases hRoot
  · exact ⟨hNew, hFound⟩

/- What a document that resolves includes resolves below it. -/
theorem of_includes
    (hResolves :
      Resolves source config ancestors path value)
    (hIncludes : Includes source config path included) :
    ∃ document,
      Resolves source config (ancestors ++ [path]) included
        document := by
  have hNew := hResolves.new_and_found.1
  rcases hResolves with ⟨bound, hOk⟩
  rcases hIncludes with
    ⟨document, hDocument, reference, hReference, rfl⟩
  cases bound with
  | zero => cases hOk
  | succ bound =>
      rcases Run.exists_resolution hOk with
        ⟨whole, hWhole, _hValue⟩
      rcases (resolveDocument_resolution_eq_ok_iff hNew
          hDocument).mp hWhole with
        ⟨resolutions, hIncluded, _hWhole⟩
      rcases exists_of_mem_of_forall₂ hIncluded
          hReference with
        ⟨resolution, _hMem, hResolution⟩
      exact
        ⟨resolution.document, bound,
          (Run.resolution_eq_ok_iff.mp hResolution).1⟩

/-
  What a document that resolves leads to resolves below at
  least the same documents.
-/
theorem of_reflTransGen
    (hResolves :
      Resolves source config ancestors path value)
    (hLeads :
      ReflTransGen (Includes source config) path
        included) :
    ∃ below document, ancestors ⊆ below ∧
      Resolves source config below included document := by
  induction hLeads with
  | refl =>
      exact
        ⟨ancestors, value, List.Subset.refl _, hResolves⟩
  | @tail middle last hLeads hIncludes ih =>
      rcases ih with ⟨below, _, hSubset, hMiddle⟩
      rcases hMiddle.of_includes hIncludes with
        ⟨document, hLast⟩
      refine ⟨below ++ [middle], document, ?_, hLast⟩
      exact
        List.Subset.trans hSubset
          (List.subset_append_left _ _)

/- A document that resolves does not lead to itself. -/
theorem not_transGen_self
    (hResolves :
      Resolves source config ancestors path value) :
    ¬ TransGen (Includes source config) path path := by
  intro hCycle
  rcases TransGen.head'_iff.mp hCycle with
    ⟨next, hIncludes, hLeads⟩
  rcases hResolves.of_includes hIncludes with
    ⟨document, hNext⟩
  rcases hNext.of_reflTransGen hLeads with
    ⟨below, _, hSubset, hAgain⟩
  have hMem : path ∈ ancestors ++ [path] :=
    List.mem_append_right _ List.mem_cons_self
  exact hAgain.new_and_found.1 (hSubset hMem)

/- A document that resolves is sound. -/
theorem isSound
    (hResolves :
      Resolves source config ancestors path value) :
    IsSound source config path := by
  constructor
  · intro other hLeads
    rcases hResolves.of_reflTransGen hLeads with
      ⟨below, _, _hSubset, hOther⟩
    exact hOther.new_and_found.2
  · intro other hLeads hCycle
    rcases hResolves.of_reflTransGen hLeads with
      ⟨below, _, _hSubset, hOther⟩
    exact hOther.not_transGen_self hCycle

end Resolves

end Transclusion

------------------------------------------------------------
-- Stores
------------------------------------------------------------

namespace Transclusion

open Relation

/- A document that is found resolves as any other document. -/
theorem resolveDocument_isRoot_eq
    {source : Source}
    {config : Config}
    {bound : Nat}
    {ancestors : List CanonicalPath}
    {path : CanonicalPath}
    {document : Value}
    (hDocument : document? (source path) = some document) :
    resolveDocument source config bound ancestors path
        true =
      resolveDocument source config bound ancestors path
        false := by
  cases bound with
  | zero => rfl
  | succ bound =>
      by_cases hMem : path ∈ ancestors
      · rw [resolveDocument_of_mem hMem,
          resolveDocument_of_mem hMem]
      · rw [resolveDocument_of_document hMem hDocument,
          resolveDocument_of_document hMem hDocument]

namespace Store

variable {store : Store}
variable {directory : Except Fault String}
variable {config : Config}
variable {root : CanonicalPath}

/- A root that resolves is missing or sound. -/
theorem missing_or_isSound_of_run
    {value : Value}
    (hOk :
      ((store.resolverFrom directory config).run
          root).result =
        .ok value) :
    (config.lenientRoot = true ∧
        ∃ fault, store.load root = .error fault) ∨
      IsSound store.load config root := by
  rw [run_resolverFrom] at hOk
  rcases (resolveDocument_result_eq_ok_cases hOk).2 with
    ⟨_hIsRoot, hMissing⟩ | ⟨document, hDocument⟩
  · exact .inl hMissing
  · rw [resolveDocument_isRoot_eq hDocument] at hOk
    have hResolves :
        Resolves store.load config [] root value :=
      ⟨_, hOk⟩
    exact .inr hResolves.isSound

/- A root that is missing or sound resolves. -/
theorem exists_run_of_missing_or_isSound
    (hPolicy : config.merge.keyPolicy ≠ .error)
    (hRoot :
      (config.lenientRoot = true ∧
          ∃ fault, store.load root = .error fault) ∨
        IsSound store.load config root) :
    ∃ value,
      ((store.resolverFrom directory config).run
          root).result =
        .ok value := by
  rcases hRoot with ⟨hLenient, fault, hMissing⟩ | hSound
  · refine ⟨.empty, ?_⟩
    rw [run_resolverFrom,
      resolveDocument_of_missing List.not_mem_nil hMissing,
      hLenient]
    rfl
  · cases hResult :
        ((store.resolverFrom directory config).run
          root).result with
    | ok value => exact ⟨value, rfl⟩
    | error error =>
        exact
          absurd (arises_of_run_eq_error hResult)
            (hSound.not_arises hPolicy (by simp))

/-
  Without a policy for errors, a path resolves exactly if
  its document is missing and may be or is sound.  Whatever
  it leads to is then another document and found.
-/
theorem exists_resolve_iff
    (store : Store)
    (directory : Except Fault String)
    (config : Config)
    (path : String)
    {root : CanonicalPath}
    (hRoot :
      (store.resolverFrom directory config).canonicalize
          path =
        .ok root)
    (hPolicy : config.merge.keyPolicy ≠ .error) :
    let resolver := store.resolverFrom directory config
    ((∃ document, resolver.resolve path = .ok document) ↔
        (config.lenientRoot = true ∧
            ∃ fault, store.load root = .error fault) ∨
          IsSound store.load config root) ∧
      ∀ included,
        TransGen (Includes store.load config) root
            included →
          (included = root ∨
              document? (store.load included) = none) →
            ∀ document,
              resolver.resolve path ≠ .ok document := by
  intro resolver
  have hRun :
      ∀ document,
        resolver.resolve path = .ok document ↔
          (resolver.run root).result = .ok document := by
    intro document
    rw [Resolver.resolve_eq hRoot, mapError_eq_ok_iff]
  constructor
  · constructor
    · rintro ⟨document, hOk⟩
      exact missing_or_isSound_of_run ((hRun _).mp hOk)
    · intro hSound
      rcases exists_run_of_missing_or_isSound hPolicy
          hSound with
        ⟨document, hOk⟩
      exact ⟨document, (hRun _).mpr hOk⟩
  · intro included hLeads hFails document hOk
    rcases missing_or_isSound_of_run
        ((hRun _).mp hOk) with
      ⟨_hLenient, fault, hMissing⟩ | hSound
    · rcases TransGen.head'_iff.mp hLeads with
        ⟨next, ⟨found, hFound, _hReference⟩, _hLeads⟩
      rw [hMissing] at hFound
      cases hFound
    · rcases hFails with rfl | hNone
      · exact hSound.acyclic _ .refl hLeads
      · rcases hSound.found _ hLeads.to_reflTransGen with
          ⟨found, hFound⟩
        rw [hNone] at hFound
        cases hFound

/-
  Two includes that share a third document resolve: all that
  the root leads to is found, and nothing leads to itself.
-/
theorem exists_resolve_sharing :
    let resolver := sharing.resolverFrom (.ok "/") {}
    let document : Value :=
      .object
        [("list",
            .array
              [.string "c", .string "x", .string "c",
                .string "y"]),
          ("name", .string "main")]
    resolver.canonicalize "/conf/main.yaml" =
        .ok sharingRoot ∧
      resolver.resolve "/conf/main.yaml" = .ok document ∧
        IsSound sharing.load {} sharingRoot ∧
          ∀ included,
            TransGen (Includes sharing.load {}) sharingRoot
                included →
              included ≠ sharingRoot ∧
                document? (sharing.load included) ≠
                  none := by
  intro resolver document
  have hRoot :
      resolver.canonicalize "/conf/main.yaml" =
        .ok sharingRoot := by
    decide +kernel
  have hFound :
      document? (sharing.load sharingRoot) =
        some sharingDocument := by
    decide +kernel
  have hOk :
      resolver.resolve "/conf/main.yaml" = .ok document := by
    decide +kernel
  rcases exists_resolve_iff sharing (.ok "/") {}
      "/conf/main.yaml" hRoot (by decide) with
    ⟨hIff, hFails⟩
  rcases hIff.mp ⟨document, hOk⟩ with
    ⟨_hLenient, fault, hMissing⟩ | hSound
  · rw [hMissing] at hFound
    cases hFound
  · refine ⟨hRoot, hOk, hSound, ?_⟩
    intro included hLeads
    constructor
    · intro hSelf
      exact hFails included hLeads (.inl hSelf) document hOk
    · intro hNone
      exact hFails included hLeads (.inr hNone) document hOk

end Store

end Transclusion
