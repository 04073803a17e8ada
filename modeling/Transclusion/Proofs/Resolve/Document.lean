import Mathlib.Data.List.Forall2
import Transclusion.Proofs.Resolve.Run
import Transclusion.Proofs.Value.KeyPath

/-
  What the resolution of one document does.

  Key definitions include:
    * `Transclusion.mergeAll`
    * `Transclusion.assemble`
    * `Transclusion.Assembled`

  Key theorems include:
    * `Transclusion.lookup_cases`
    * `Transclusion.Config.field?_content`
    * `Transclusion.resolveDocument_of_mem`
    * `Transclusion.resolveDocument_of_missing`
    * `Transclusion.resolveDocument_of_malformed`
    * `Transclusion.resolveDocument_of_document`
    * `Transclusion.resolveDocument_result_eq_ok_cases`
    * `Transclusion.resolveDocument_resolution_eq_ok_iff`

  A document below its ancestors is met again, missing,
  malformed or found.  A document that is found is assembled
  from its includes and its own content.
-/

------------------------------------------------------------
-- Reading
------------------------------------------------------------

namespace Transclusion

/- A document that is found is one that is read and parsed. -/
theorem document?_eq_some_iff
    {text : Except Fault String}
    {document : Value} :
    document? text = some document ↔
      ∃ content, text = .ok content ∧
        parseText content = .ok document := by
  cases text with
  | error fault => simp [document?]
  | ok content =>
      cases hParse : parseText content <;>
        simp [document?, hParse, Except.toOption]

/- A document is missing, malformed or found. -/
theorem lookup_cases
    (text : Except Fault String) :
    (∃ fault, text = .error fault) ∨
      (∃ content error, text = .ok content ∧
        parseText content = .error error) ∨
      ∃ document, document? text = some document := by
  cases text with
  | error fault => exact .inl ⟨fault, rfl⟩
  | ok content =>
      cases hParse : parseText content with
      | error error =>
          exact .inr (.inl ⟨content, error, rfl, hParse⟩)
      | ok document =>
          exact
            .inr (.inr
              ⟨document,
                document?_eq_some_iff.mpr
                  ⟨content, rfl, hParse⟩⟩)

/- The warnings about a document on its own. -/
def Config.ownWarnings
    (config : Config)
    (path : CanonicalPath)
    (document : Value) : List Warning :=
  if (config.split document).wellFormed then []
  else [.malformedIncludes path]

end Transclusion

------------------------------------------------------------
-- Directives
------------------------------------------------------------

namespace Transclusion

namespace Config

variable {config : Config}
variable {document : Value}

/- Without its directive, a document is of the same kind. -/
theorem kind_content :
    (config.split document).content.kind =
      document.kind := by
  unfold split
  split
  · split <;> rfl
  · rfl

/- Without its directive, a document has the other fields. -/
theorem field?_content
    {key : String}
    (hKey : key ≠ config.includesKey) :
    (config.split document).content.field? key =
      document.field? key := by
  unfold split
  split
  · split
    · rfl
    · exact Fields.get?_erase_of_ne _ hKey
  · rfl

/- Paths do not end at the directive unless they begin there. -/
theorem at?_content
    {key : String}
    {rest : List String}
    (hKey : key ≠ config.includesKey) :
    (config.split document).content.at? (key :: rest) =
      document.at? (key :: rest) := by
  rw [Value.at?_cons, Value.at?_cons, field?_content hKey]

end Config

end Transclusion

------------------------------------------------------------
-- Merges
------------------------------------------------------------

namespace Transclusion

/- A merge reports neither documents nor warnings. -/
theorem mergeFor_resolution_eq_ok_iff
    {config : Config}
    {path : CanonicalPath}
    {first second : Value}
    {whole : Resolution} :
    (mergeFor config path first second).resolution =
        .ok whole ↔
      merge config.merge first second =
          .ok whole.document ∧
        whole.files = [] ∧ whole.warnings = [] := by
  rcases whole with ⟨document, files, warnings⟩
  cases hMerge : merge config.merge first second <;>
    simp [mergeFor, Run.ofExcept, Run.resolution, hMerge,
      Except.map, eq_comm]

/- The merge of documents, the first of them first. -/
def mergeAll
    (options : MergeOptions)
    (documents : List Value) :
    Except MergeConflict Value :=
  documents.foldlM (merge options) .empty

variable {config : Config}
variable {path : CanonicalPath}
variable {resolve : CanonicalPath → Run Value}

/-
  Includes are merged if each of them resolves and their
  documents merge in order.
-/
theorem mergeIncludes_resolution_eq_ok_iff
    {references : List String}
    {merged : Value}
    {whole : Resolution} :
    (mergeIncludes config path resolve references
        merged).resolution = .ok whole ↔
      ∃ included : List Resolution,
        List.Forall₂
            (fun reference resolution =>
              (resolve
                  (resolveInclude path
                    reference)).resolution =
                .ok resolution)
            references included ∧
          (included.map (·.document)).foldlM
              (merge config.merge) merged =
            .ok whole.document ∧
          whole.files = included.flatMap (·.files) ∧
          whole.warnings =
            included.flatMap (·.warnings) := by
  induction references generalizing merged whole with
  | nil =>
      rcases whole with ⟨document, files, warnings⟩
      simp [mergeIncludes, Run.resolution, pure,
        Except.map, Except.pure, eq_comm]
  | cons reference rest ih =>
      unfold mergeIncludes
      simp only [Run.bind_resolution_eq_ok_iff,
        Run.within_resolution_eq_ok_iff,
        mergeFor_resolution_eq_ok_iff, ih,
        List.forall₂_cons_left_iff]
      constructor
      · rintro ⟨first, rest, hFirst, ⟨second, last,
          ⟨hMerge, hFiles, hWarnings⟩,
          ⟨included, hRest, hFold, hFiles', hWarnings'⟩,
          rfl⟩, rfl⟩
        refine
          ⟨first :: included,
            ⟨first, included, hFirst, hRest, rfl⟩, ?_,
            ?_, ?_⟩
        · rw [List.map_cons, List.foldlM_cons, hMerge]
          exact hFold
        · simp [hFiles, hFiles']
        · simp [hWarnings, hWarnings']
      · rintro ⟨_, ⟨first, included, hFirst, hRest, rfl⟩,
          hFold, hFiles, hWarnings⟩
        rw [List.map_cons, List.foldlM_cons] at hFold
        cases hMerge :
            merge config.merge merged first.document with
        | error clash =>
            rw [hMerge] at hFold
            contradiction
        | ok next =>
            rw [hMerge] at hFold
            let last : Resolution :=
              { document := whole.document
                files := included.flatMap (·.files)
                warnings :=
                  included.flatMap (·.warnings) }
            refine
              ⟨first, last, hFirst,
                ⟨⟨next, [], []⟩, last, ⟨hMerge, rfl, rfl⟩,
                  ⟨included, hRest, hFold, rfl, rfl⟩,
                  rfl⟩, ?_⟩
            rcases whole with ⟨document, files, warnings⟩
            simp_all [last]

end Transclusion

------------------------------------------------------------
-- Assembly
------------------------------------------------------------

namespace Transclusion

/-
  The merge of what a document includes and of its own
  content.
-/
def assemble
    (config : Config)
    (path : CanonicalPath)
    (resolve : CanonicalPath → Run Value)
    (document : Value) : Run Value := do
  let merged ←
    mergeIncludes config path resolve
      (config.split document).references .empty
  mergeFor config path merged
    (config.split document).content

variable {config : Config}
variable {path : CanonicalPath}
variable {resolve : CanonicalPath → Run Value}

/-
  A document is assembled if its includes resolve and
  everything merges.
-/
theorem assemble_resolution_eq_ok_iff
    {document : Value}
    {whole : Resolution} :
    (assemble config path resolve document).resolution =
        .ok whole ↔
      ∃ included : List Resolution,
        List.Forall₂
            (fun reference resolution =>
              (resolve
                  (resolveInclude path
                    reference)).resolution =
                .ok resolution)
            (config.split document).references included ∧
          (∃ inherited,
            mergeAll config.merge
                (included.map (·.document)) =
              .ok inherited ∧
            merge config.merge inherited
                (config.split document).content =
              .ok whole.document) ∧
          whole.files = included.flatMap (·.files) ∧
          whole.warnings =
            included.flatMap (·.warnings) := by
  unfold assemble
  simp only [Run.bind_resolution_eq_ok_iff,
    mergeIncludes_resolution_eq_ok_iff,
    mergeFor_resolution_eq_ok_iff]
  constructor
  · rintro ⟨first, last,
      ⟨included, hIncluded, hFold, hFiles, hWarnings⟩,
      ⟨hMerge, hNoFiles, hNoWarnings⟩, rfl⟩
    refine
      ⟨included, hIncluded,
        ⟨first.document, hFold, hMerge⟩, ?_, ?_⟩
    · simp [hFiles, hNoFiles]
    · simp [hWarnings, hNoWarnings]
  · rintro ⟨included, hIncluded,
      ⟨inherited, hFold, hMerge⟩, hFiles, hWarnings⟩
    refine
      ⟨⟨inherited, whole.files, whole.warnings⟩,
        ⟨whole.document, [], []⟩,
        ⟨included, hIncluded, hFold, hFiles, hWarnings⟩,
        ⟨hMerge, rfl, rfl⟩, ?_⟩
    simp

end Transclusion

------------------------------------------------------------
-- One Document
------------------------------------------------------------

namespace Transclusion

variable {source : Source}
variable {config : Config}
variable {bound : Nat}
variable {ancestors : List CanonicalPath}
variable {path : CanonicalPath}
variable {isRoot : Bool}

/- A document inside itself is circular. -/
theorem resolveDocument_of_mem
    (hMem : path ∈ ancestors) :
    resolveDocument source config (bound + 1) ancestors
        path isRoot =
      Run.fail (.circular path (ancestors ++ [path])) := by
  simp [resolveDocument, hMem]

/- A document that cannot be read fails, but for a root. -/
theorem resolveDocument_of_missing
    {fault : Fault}
    (hNew : path ∉ ancestors)
    (hMissing : source path = .error fault) :
    resolveDocument source config (bound + 1) ancestors
        path isRoot =
      if isRoot && config.lenientRoot then
        ⟨[.entered path (ancestors.length + 1),
            .warned (.missingRoot path fault)],
          .ok .empty⟩
      else
        ⟨[.entered path (ancestors.length + 1)],
          .error (.unreadable path fault)⟩ := by
  unfold resolveDocument
  rw [if_neg (by simpa using hNew)]
  by_cases hLenient : isRoot && config.lenientRoot
  · simp only [loadDocument, hMissing, hLenient, if_true]
    simp [Bind.bind, Run.andThen, Run.step, pure]
  · simp only [loadDocument, hMissing, hLenient]
    simp [Bind.bind, Run.andThen, Run.step, Run.fail]

/- A document that is no text of values fails. -/
theorem resolveDocument_of_malformed
    {content : String}
    {error : ParseError}
    (hNew : path ∉ ancestors)
    (hText : source path = .ok content)
    (hParse : parseText content = .error error) :
    resolveDocument source config (bound + 1) ancestors
        path isRoot =
      ⟨[.entered path (ancestors.length + 1)],
        .error (.malformed path error)⟩ := by
  unfold resolveDocument
  rw [if_neg (by simpa using hNew)]
  simp only [loadDocument, hText, hParse]
  simp [Bind.bind, Run.andThen, Run.step, Run.fail]

/- A document that is found is assembled. -/
theorem resolveDocument_of_document
    {document : Value}
    (hNew : path ∉ ancestors)
    (hDocument : document? (source path) = some document) :
    resolveDocument source config (bound + 1) ancestors
        path isRoot =
      let whole :=
        assemble config path
          (fun included =>
            resolveDocument source config bound
              (ancestors ++ [path]) included false)
          document
      ⟨.entered path (ancestors.length + 1) ::
          .loaded path ::
          ((config.ownWarnings path document).map
            Step.warned ++ whole.steps),
        whole.result⟩ := by
  rcases document?_eq_some_iff.mp hDocument with
    ⟨content, hText, hParse⟩
  conv_lhs => unfold resolveDocument
  rw [if_neg (by simpa using hNew)]
  simp only [loadDocument, hText, hParse, assemble,
    Config.ownWarnings]
  cases hWellFormed :
      (config.split document).wellFormed <;>
    simp [Bind.bind, Run.andThen, Run.step, pure,
      hWellFormed]

/-
  A document that resolves is new, and it is found or a root
  that may be missing.
-/
theorem resolveDocument_result_eq_ok_cases
    {value : Value}
    (hOk :
      (resolveDocument source config bound ancestors path
          isRoot).result =
        .ok value) :
    path ∉ ancestors ∧
      ((isRoot = true ∧ config.lenientRoot = true ∧
          ∃ fault, source path = .error fault) ∨
        ∃ document,
          document? (source path) = some document) := by
  cases bound with
  | zero => cases hOk
  | succ bound =>
      have hNew : path ∉ ancestors := by
        intro hMem
        rw [resolveDocument_of_mem hMem] at hOk
        cases hOk
      refine ⟨hNew, ?_⟩
      rcases lookup_cases (source path) with
        ⟨fault, hMissing⟩ |
        ⟨content, error, hText, hParse⟩ | hFound
      · rw [resolveDocument_of_missing hNew hMissing] at hOk
        split at hOk
        · rename_i hLenient
          rw [Bool.and_eq_true] at hLenient
          exact
            .inl ⟨hLenient.1, hLenient.2, fault, hMissing⟩
        · cases hOk
      · rw [resolveDocument_of_malformed hNew hText
          hParse] at hOk
        cases hOk
      · exact .inr hFound

end Transclusion

------------------------------------------------------------
-- Reports of One Document
------------------------------------------------------------

namespace Transclusion

variable {source : Source}
variable {config : Config}
variable {bound : Nat}
variable {ancestors : List CanonicalPath}
variable {path : CanonicalPath}
variable {isRoot : Bool}

/-
  A resolution made of those of the includes: their
  documents and the content merged in order, and the
  documents loaded and the warnings one after another.
-/
structure Assembled
    (config : Config)
    (path : CanonicalPath)
    (document : Value)
    (included : List Resolution)
    (whole : Resolution) : Prop where
  merged :
    ∃ inherited,
      mergeAll config.merge (included.map (·.document)) =
          .ok inherited ∧
        merge config.merge inherited
            (config.split document).content =
          .ok whole.document
  files : whole.files = path :: included.flatMap (·.files)
  warnings :
    whole.warnings =
      config.ownWarnings path document ++
        included.flatMap (·.warnings)

/-
  The report of a document that is found begins with the
  document itself.
-/
theorem resolveDocument_resolution_of_document
    {document : Value}
    (hNew : path ∉ ancestors)
    (hDocument : document? (source path) = some document) :
    (resolveDocument source config (bound + 1) ancestors
        path isRoot).resolution =
      (assemble config path
          (fun included =>
            resolveDocument source config bound
              (ancestors ++ [path]) included false)
          document).resolution.map fun inner =>
        { document := inner.document
          files := path :: inner.files
          warnings :=
            config.ownWarnings path document ++
              inner.warnings } := by
  have hFiles :
      ∀ warnings : List Warning,
        (warnings.map Step.warned).filterMap Step.file? =
          [] := by
    intro warnings
    simp [List.filterMap_map, Function.comp_def, Step.file?]
  have hWarnings :
      ∀ warnings : List Warning,
        (warnings.map Step.warned).filterMap
            Step.warning? =
          warnings := by
    intro warnings
    simp [List.filterMap_map, Function.comp_def,
      Step.warning?]
  rw [resolveDocument_of_document hNew hDocument]
  simp only [Run.resolution, List.filterMap_append,
    List.filterMap_cons, Step.file?, Step.warning?,
    hFiles, hWarnings, List.nil_append]
  cases (assemble config path _ document).result <;> rfl

/-
  A document that is found resolves if its includes do and
  everything merges.
-/
theorem resolveDocument_resolution_eq_ok_iff
    {document : Value}
    {whole : Resolution}
    (hNew : path ∉ ancestors)
    (hDocument : document? (source path) = some document) :
    (resolveDocument source config (bound + 1) ancestors
          path isRoot).resolution =
        .ok whole ↔
      ∃ included : List Resolution,
        List.Forall₂
            (fun reference resolution =>
              (resolveDocument source config bound
                  (ancestors ++ [path])
                  (resolveInclude path reference)
                  false).resolution =
                .ok resolution)
            (config.split document).references included ∧
          Assembled config path document included
            whole := by
  rw [resolveDocument_resolution_of_document hNew hDocument,
    map_eq_ok_iff]
  constructor
  · rintro ⟨inner, hInner, rfl⟩
    rcases assemble_resolution_eq_ok_iff.mp hInner with
      ⟨included, hIncluded, hMerged, hFiles, hWarnings⟩
    exact
      ⟨included, hIncluded, hMerged, by simp [hFiles],
        by simp [hWarnings]⟩
  · rintro ⟨included, hIncluded, hWhole⟩
    refine
      ⟨⟨whole.document, included.flatMap (·.files),
          included.flatMap (·.warnings)⟩,
        assemble_resolution_eq_ok_iff.mpr
          ⟨included, hIncluded, hWhole.merged, rfl, rfl⟩,
        ?_⟩
    rw [← hWhole.files, ← hWhole.warnings]

end Transclusion
