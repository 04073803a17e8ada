import Transclusion.Proofs.Resolve.Document
import Transclusion.Proofs.Source.Memory

/-
  The resolution of a document from those of its includes.

  Key theorems include:
    * `Transclusion.resolveDocument_resolution_mono`
    * `Transclusion.Store.report_assembled`

  What an include contributes does not depend on the
  documents above it: a report that is made below ancestors
  is made below fewer of them and with a larger bound, too.
  So the report of a document is assembled from the reports
  of its includes as documents of their own.
-/

------------------------------------------------------------
-- Contexts
------------------------------------------------------------

namespace Transclusion

/-
  A report stays as it is below fewer ancestors, with a
  larger bound, and for a root.
-/
theorem resolveDocument_resolution_mono
    {source : Source}
    {config : Config}
    {bound bound' : Nat}
    {ancestors ancestors' : List CanonicalPath}
    {path : CanonicalPath}
    {isRoot isRoot' : Bool}
    {whole : Resolution}
    (hBound : bound ≤ bound')
    (hAncestors : ancestors' ⊆ ancestors)
    (hIsRoot : isRoot = true → isRoot' = true)
    (hOk :
      (resolveDocument source config bound ancestors path
          isRoot).resolution =
        .ok whole) :
    (resolveDocument source config bound' ancestors' path
        isRoot').resolution =
      .ok whole := by
  induction bound generalizing
      bound' ancestors ancestors' path isRoot isRoot'
      whole with
  | zero => cases hOk
  | succ bound ih =>
      cases bound' with
      | zero => omega
      | succ bound' =>
          have hResult := (Run.resolution_eq_ok_iff.mp hOk).1
          rcases resolveDocument_result_eq_ok_cases
              hResult with
            ⟨hNew, hCases⟩
          have hNew' : path ∉ ancestors' :=
            fun hMem => hNew (hAncestors hMem)
          rcases hCases with
            ⟨hRoot, hLenient, fault, hMissing⟩ |
            ⟨document, hDocument⟩
          · rw [resolveDocument_of_missing hNew hMissing,
              hRoot, hLenient] at hOk
            rw [resolveDocument_of_missing hNew' hMissing,
              hIsRoot hRoot, hLenient]
            exact hOk
          · rw [resolveDocument_resolution_eq_ok_iff hNew
              hDocument] at hOk
            rw [resolveDocument_resolution_eq_ok_iff hNew'
              hDocument]
            have hBelow :
                ancestors' ++ [path] ⊆
                  ancestors ++ [path] := by
              intro other hOther
              rcases List.mem_append.mp hOther with
                hOld | hPath
              · exact
                  List.mem_append_left _ (hAncestors hOld)
              · exact List.mem_append_right _ hPath
            rcases hOk with ⟨included, hIncluded, hWhole⟩
            refine ⟨included, ?_, hWhole⟩
            refine hIncluded.imp ?_
            intro reference resolution hResolved
            exact ih (by omega) hBelow id hResolved

/- What resolves below ancestors resolves by itself. -/
theorem resolveDocument_result_mono
    {source : Source}
    {config : Config}
    {bound bound' : Nat}
    {ancestors : List CanonicalPath}
    {path : CanonicalPath}
    {isRoot : Bool}
    {value : Value}
    (hBound : bound ≤ bound')
    (hOk :
      (resolveDocument source config bound ancestors path
          false).result =
        .ok value) :
    (resolveDocument source config bound' [] path
        isRoot).result =
      .ok value := by
  rcases Run.exists_resolution hOk with
    ⟨whole, hWhole, rfl⟩
  have hAlone :
      (resolveDocument source config bound' [] path
          isRoot).resolution =
        .ok whole :=
    resolveDocument_resolution_mono hBound
      (List.nil_subset _) (by simp) hWhole
  exact (Run.resolution_eq_ok_iff.mp hAlone).1

end Transclusion

------------------------------------------------------------
-- Reports from Reports
------------------------------------------------------------

namespace Transclusion

namespace Store

variable {store : Store}
variable {directory : Except Fault String}
variable {config : Config}

/-
  What resolves as an include is reported in the same way as
  a document of its own.
-/
theorem report_of_include
    {bound : Nat}
    {ancestors : List CanonicalPath}
    {path : CanonicalPath}
    {whole : Resolution}
    (hRooted : path.IsRooted)
    (hBound : bound ≤ store.size + 1)
    (hOk :
      (resolveDocument store.load config bound ancestors
          path false).resolution =
        .ok whole) :
    (store.resolverFrom directory config).report path.text =
      .ok whole := by
  have hRun :
      ((store.resolverFrom directory config).run
          path).resolution =
        .ok whole :=
    resolveDocument_resolution_mono hBound
      (List.nil_subset _) (by simp) hOk
  rw [Resolver.report_eq (canonicalize_text hRooted), hRun]
  rfl

/-
  The report of a document that is found is assembled from
  the reports of its includes, each resolved on its own.
-/
theorem report_assembled
    (store : Store)
    (directory : Except Fault String)
    (config : Config)
    (path : String)
    {root : CanonicalPath}
    {document : Value}
    {whole : Resolution}
    (hRoot :
      (store.resolverFrom directory config).canonicalize
          path =
        .ok root)
    (hDocument :
      document? (store.load root) = some document)
    (hReport :
      (store.resolverFrom directory config).report path =
        .ok whole) :
    ∃ included : List Resolution,
      List.Forall₂
          (fun reference resolution =>
            (store.resolverFrom directory config).report
                (resolveInclude root reference).text =
              .ok resolution)
          (config.split document).references included ∧
        Assembled config root document included whole := by
  have hRooted := isRooted_of_canonicalize hRoot
  rw [Resolver.report_eq hRoot, mapError_eq_ok_iff]
    at hReport
  rcases (resolveDocument_resolution_eq_ok_iff
      List.not_mem_nil hDocument).mp hReport with
    ⟨included, hIncluded, hWhole⟩
  refine ⟨included, ?_, hWhole⟩
  refine hIncluded.imp ?_
  intro reference resolution hResolved
  exact
    report_of_include (hRooted.resolveInclude reference)
      (Nat.le_succ _) hResolved

/-
  Two includes of a document share a third, whose directive
  is no list and is warned about both times.
-/
def sharing : Store :=
  ofList
    [("/conf/main.yaml",
        "includes: [x.yaml, sub/y.yaml]\nname: main\n"),
      ("/conf/x.yaml",
        "includes: [common.yaml]\nlist: [x]\n"),
      ("/conf/sub/y.yaml",
        "includes: [../common.yaml]\nlist: [y]\n"),
      ("/conf/common.yaml",
        "includes: common\nlist: [c]\n")]

/- The path of the document that includes both. -/
def sharingRoot : CanonicalPath :=
  .ofText "/conf/main.yaml"

/- The document that includes both, on its own. -/
def sharingDocument : Value :=
  .object
    [("includes",
        .array [.string "x.yaml", .string "sub/y.yaml"]),
      ("name", .string "main")]

/- A document that is shared is reported for every include. -/
theorem report_assembled_sharing :
    (sharing.resolverFrom (.ok "/") {}).canonicalize
          "/conf/main.yaml" =
        .ok sharingRoot ∧
      document? (sharing.load sharingRoot) =
          some sharingDocument ∧
      ∃ included : List Resolution,
        List.Forall₂
            (fun reference resolution =>
              (sharing.resolverFrom (.ok "/") {}).report
                  (resolveInclude sharingRoot
                    reference).text =
                .ok resolution)
            (Config.split {} sharingDocument).references
            included ∧
          Assembled {} sharingRoot sharingDocument included
            { document :=
                .object
                  [("list",
                      .array
                        [.string "c", .string "x",
                          .string "c", .string "y"]),
                    ("name", .string "main")]
              files :=
                [sharingRoot, .ofText "/conf/x.yaml",
                  .ofText "/conf/common.yaml",
                  .ofText "/conf/sub/y.yaml",
                  .ofText "/conf/common.yaml"]
              warnings :=
                [.malformedIncludes
                    (.ofText "/conf/common.yaml"),
                  .malformedIncludes
                    (.ofText "/conf/common.yaml")] } := by
  have hRoot :
      (sharing.resolverFrom (.ok "/") {}).canonicalize
          "/conf/main.yaml" =
        .ok sharingRoot := by
    decide +kernel
  have hDocument :
      document? (sharing.load sharingRoot) =
        some sharingDocument := by
    decide +kernel
  refine
    ⟨hRoot, hDocument,
      report_assembled sharing (.ok "/") {}
        "/conf/main.yaml" hRoot hDocument ?_⟩
  decide +kernel

end Store

end Transclusion
