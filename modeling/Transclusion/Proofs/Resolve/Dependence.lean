import Transclusion.Proofs.Resolve.Correspondence
import Transclusion.Proofs.Resolve.Walks

/-
  What a resolution depends on.

  Key definitions include:
    * `Transclusion.Store.AgreeOn`
    * `Transclusion.tracing`

  Key theorems include:
    * `Transclusion.tracing_respects`
    * `Transclusion.Store.report_of_agrees_below`
    * `Transclusion.Store.report_of_agreeOn`

  A run only looks at what its root leads to, and what is
  reported is all of that.  Documents that are not reported
  may be anything.
-/

------------------------------------------------------------
-- Sources
------------------------------------------------------------

namespace Transclusion

open Relation

variable {config : Config}
variable {root : CanonicalPath}

/- The same resolution, as far as a root leads. -/
def tracing
    (source : Source)
    (config : Config)
    (root : CanonicalPath) : Correspondence where
  path path path' :=
    path = path' ∧
      ReflTransGen (Includes source config) root path
  fault := Eq
  value := Eq
  clash := Eq

/- What is found twice is found to correspond. -/
theorem tracing_finds
    {source : Source}
    {path : CanonicalPath}
    (hLeads :
      ReflTransGen (Includes source config) root path) :
    (tracing source config root).Finds config path path
      (source path) (source path) := by
  rcases lookup_cases (source path) with
    ⟨fault, hMissing⟩ | ⟨content, error, hText, hParse⟩ |
    ⟨document, hDocument⟩
  · rw [hMissing]
    exact .missing rfl
  · rw [hText]
    exact .malformed hParse hParse
  · refine .found hDocument hDocument ?_
    refine
      { references := ?_, wellFormed := rfl, content := rfl }
    rw [List.forall₂_same]
    intro reference hReference
    have hIncludes :
        Includes source config path
          (resolveInclude path reference) :=
      ⟨document, hDocument, reference, hReference, rfl⟩
    exact ⟨rfl, hLeads.tail hIncludes⟩

/-
  Resolutions cannot tell sources apart that agree on what
  the root leads to in one of them.
-/
theorem tracing_respects
    {source source' : Source}
    (hAgree :
      ∀ path,
        ReflTransGen (Includes source config) root path →
          source' path = source path) :
    (tracing source config root).Respects source source'
      config where
  unique := by
    rintro path _ other _ ⟨rfl, _hPath⟩ ⟨rfl, _hOther⟩
    rfl
  finds := by
    rintro path _ ⟨rfl, hLeads⟩
    rw [hAgree path hLeads]
    exact tracing_finds hLeads
  empty := rfl
  merge := by
    rintro first _ second _ rfl rfl
    exact .refl _

end Transclusion

------------------------------------------------------------
-- Stores
------------------------------------------------------------

namespace Transclusion

open Relation

namespace Store

/- The same texts under paths. -/
def AgreeOn
    (store store' : Store)
    (files : List CanonicalPath) : Prop :=
  ∀ file ∈ files, store'.load file = store.load file

instance
    (store store' : Store)
    (files : List CanonicalPath) :
    Decidable (store.AgreeOn store' files) := by
  unfold AgreeOn
  infer_instance

variable {store store' : Store}
variable {directory : Except Fault String}
variable {config : Config}
variable {path : String}
variable {root : CanonicalPath}
variable {whole : Resolution}

/- What stores lack, they lack for the same reason. -/
theorem load_eq_of_missing
    {file : CanonicalPath}
    {fault fault' : Fault}
    (hMissing : store.load file = .error fault)
    (hMissing' : store'.load file = .error fault') :
    store'.load file = store.load file := by
  unfold load at hMissing hMissing' ⊢
  cases hFind : store.find? file.components with
  | some text =>
      rw [hFind] at hMissing
      cases hMissing
  | none =>
      cases hFind' : store'.find? file.components with
      | some text =>
          rw [hFind'] at hMissing'
          cases hMissing'
      | none => rfl

/- A store reports what another does if they agree below it. -/
theorem report_of_agrees_below
    (hRoot :
      (store.resolverFrom directory config).canonicalize
          path =
        .ok root)
    (hReport :
      (store.resolverFrom directory config).report path =
        .ok whole)
    (hAgree :
      ∀ file,
        ReflTransGen (Includes store.load config) root
            file →
          store'.load file = store.load file) :
    (store'.resolverFrom directory config).report path =
      .ok whole := by
  have hRoot' :
      (store'.resolverFrom directory config).canonicalize
          path =
        .ok root :=
    hRoot
  have hAlike :=
    report_corresponds (tracing_respects hAgree) hRoot
      hRoot' ⟨rfl, .refl⟩
  rcases hAlike.exists_of_ok hReport with
    ⟨whole', hReport', hWhole⟩
  have hSame := hWhole.eq (fun hPath => hPath.1) id
  have hDocument := hWhole.document
  rw [hReport', hSame, ← hDocument]

/-
  A report only depends on the documents that it lists.  Any
  store with the same texts under their paths has the same
  report, if it lacks the root where the first store does.
-/
theorem report_of_agreeOn
    (store store' : Store)
    (directory : Except Fault String)
    (config : Config)
    (path : String)
    {root : CanonicalPath}
    {whole : Resolution}
    (hRoot :
      (store.resolverFrom directory config).canonicalize
          path =
        .ok root)
    (hReport :
      (store.resolverFrom directory config).report path =
        .ok whole)
    (hFiles : store.AgreeOn store' whole.files)
    (hMissing :
      (∃ fault, store.load root = .error fault) →
        ∃ fault, store'.load root = .error fault) :
    (store'.resolverFrom directory config).report path =
      .ok whole := by
  apply report_of_agrees_below hRoot hReport
  intro file hLeads
  rcases Resolver.report_cases hRoot hReport with
    ⟨fault, hLacks, _hWhole⟩ | ⟨tree, hTree, hAssembles⟩
  · have hLacks : store.load root = .error fault := hLacks
    rcases hMissing ⟨fault, hLacks⟩ with ⟨fault', hLacks'⟩
    -- A root that is missing leads nowhere else.
    rcases ReflTransGen.cases_head hLeads with
      rfl | ⟨next, hIncludes, _hLeads⟩
    · exact load_eq_of_missing hLacks hLacks'
    · rcases hIncludes with ⟨document, hDocument, _hNext⟩
      rw [hLacks] at hDocument
      cases hDocument
  · have hListed : file ∈ whole.files :=
      (hAssembles.mem_files_iff hTree).mpr hLeads
    exact hFiles file hListed

/- Documents with one that is not included by any other. -/
def drafting : Store :=
  sharing.insert "/conf/draft.yaml"
    "includes: [main.yaml]\n"

/- The same documents with another draft and a new one. -/
def redrafting : Store :=
  (sharing.insert "/conf/draft.yaml" "[").insert
    "/conf/new.yaml" "new: true\n"

/-
  Drafts make no difference, whether the root is found or
  missing.
-/
theorem report_of_agreeOn_drafting :
    let resolver := drafting.resolverFrom (.ok "/") {}
    let resolver' := redrafting.resolverFrom (.ok "/") {}
    (∃ whole,
        resolver.canonicalize "/conf/main.yaml" =
            .ok sharingRoot ∧
          resolver.report "/conf/main.yaml" = .ok whole ∧
            drafting.AgreeOn redrafting whole.files ∧
              (∃ content,
                drafting.load sharingRoot = .ok content) ∧
                resolver'.report "/conf/main.yaml" =
                  .ok whole) ∧
      ∃ whole,
        let root := .ofText "/none.yaml"
        resolver.canonicalize "/none.yaml" = .ok root ∧
          resolver.report "/none.yaml" = .ok whole ∧
            drafting.AgreeOn redrafting whole.files ∧
              (∃ fault,
                redrafting.load root = .error fault) ∧
                resolver'.report "/none.yaml" =
                  .ok whole := by
  intro resolver resolver'
  constructor
  · have hRoot :
        resolver.canonicalize "/conf/main.yaml" =
          .ok sharingRoot := by
      decide +kernel
    have hReport :
        resolver.report "/conf/main.yaml" =
          .ok sharingReport := by
      decide +kernel
    have hFiles :
        drafting.AgreeOn redrafting
          sharingReport.files := by
      decide +kernel
    have hContent :
        drafting.load sharingRoot =
          .ok
            "includes: [x.yaml, sub/y.yaml]\nname: main\n" := by
      decide +kernel
    have hFound :
        ¬ ∃ fault,
          drafting.load sharingRoot = .error fault := by
      rintro ⟨fault, hMissing⟩
      rw [hContent] at hMissing
      cases hMissing
    have hReport' :=
      report_of_agreeOn drafting redrafting (.ok "/") {}
        "/conf/main.yaml" hRoot hReport hFiles
        (fun hMissing => absurd hMissing hFound)
    exact
      ⟨sharingReport, hRoot, hReport, hFiles,
        ⟨_, hContent⟩, hReport'⟩
  · let root : CanonicalPath := .ofText "/none.yaml"
    let whole : Resolution :=
      ⟨.empty, [],
        [.missingRoot root (.notRegistered "/none.yaml")]⟩
    have hRoot :
        resolver.canonicalize "/none.yaml" = .ok root := by
      decide +kernel
    have hReport :
        resolver.report "/none.yaml" = .ok whole := by
      decide +kernel
    have hFiles :
        drafting.AgreeOn redrafting whole.files := by
      intro file hFile
      cases hFile
    have hMissing :
        redrafting.load root =
          .error (.notRegistered "/none.yaml") := by
      decide +kernel
    have hReport' :=
      report_of_agreeOn drafting redrafting (.ok "/") {}
        "/none.yaml" hRoot hReport hFiles
        (fun _ => ⟨_, hMissing⟩)
    exact
      ⟨whole, hRoot, hReport, hFiles, ⟨_, hMissing⟩,
        hReport'⟩

end Store

end Transclusion
