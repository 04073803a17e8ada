import Transclusion.Proofs.Path.Below
import Transclusion.Proofs.Resolve.Correspondence

/-
  Documents moved from one directory to another.

  Key definitions include:
    * `Transclusion.Store.IsUnder`
    * `Transclusion.Store.StaysInside`
    * `Transclusion.Store.move`
    * `Transclusion.Moved`
    * `Transclusion.moving`

  Key theorems include:
    * `Transclusion.Store.find?_move`
    * `Transclusion.Store.moving_respects`
    * `Transclusion.Store.report_moved`

  If all documents are under one directory and no reference
  leads out of it, then it does not matter which directory
  this is.  The same names below another directory lead to
  the same texts, and different names stay different, so
  that cycles neither appear nor vanish.
-/

------------------------------------------------------------
-- Stores
------------------------------------------------------------

namespace Transclusion

namespace Store

/- All documents are under a directory. -/
def IsUnder
    (store : Store)
    (base : CanonicalPath) : Prop :=
  ∀ document ∈ store.documents,
    base.components <+: document.1 ∧
      base.components ≠ document.1

instance
    (store : Store)
    (base : CanonicalPath) :
    Decidable (store.IsUnder base) := by
  unfold IsUnder
  infer_instance

/-
  References are relative and stay below a directory, from
  the directories of the documents that they stand in.
-/
def StaysInside
    (store : Store)
    (config : Config)
    (base : CanonicalPath) : Prop :=
  ∀ (place : CanonicalPath) (document : Value),
    document? (store.load (base.below place)) =
        some document →
      ∀ reference ∈ (config.split document).references,
        isAbsolutePath reference = false ∧
          StaysBelow place.names.dropLast
            (pathNames reference)

/- The documents under a directory, moved to another. -/
def move
    (base base' : CanonicalPath)
    (store : Store) : Store :=
  ⟨store.documents.map fun document =>
    (base'.components ++
        document.1.drop base.components.length,
      document.2)⟩

variable {store : Store}
variable {config : Config}
variable {base base' : CanonicalPath}

/- A text that is found is that of a document. -/
theorem mem_documents_of_find?
    {key : List Component}
    {text : String}
    (hFind : store.find? key = some text) :
    (key, text) ∈ store.documents := by
  rcases List.lookup_eq_some_iff.mp hFind with
    ⟨before, after, hDocuments, _hFirst⟩
  rw [hDocuments]
  exact List.mem_append_right _ List.mem_cons_self

/- What is found under a directory has names below it. -/
theorem IsUnder.names_ne_nil
    {place : CanonicalPath}
    {text : String}
    (hUnder : store.IsUnder base)
    (hFind :
      store.find? (base.below place).components =
        some text) :
    place.names ≠ [] := by
  intro hNone
  have hMem := mem_documents_of_find? hFind
  have hBelow := (hUnder _ hMem).2
  rw [CanonicalPath.components_below, hNone] at hBelow
  exact hBelow (List.append_nil _).symm

/- A text is found under its new key. -/
theorem find?_move
    (hUnder : store.IsUnder base)
    (rest : List Component) :
    (store.move base base').find?
        (base'.components ++ rest) =
      store.find? (base.components ++ rest) := by
  rcases store with ⟨documents⟩
  unfold IsUnder at hUnder
  unfold find? move
  dsimp only at hUnder ⊢
  induction documents with
  | nil => rfl
  | cons document documents ih =>
      rw [List.forall_mem_cons] at hUnder
      rcases document with ⟨key, text⟩
      rcases hUnder.1.1 with ⟨tail, rfl⟩
      rw [List.map_cons, List.lookup_cons,
        List.lookup_cons, ih hUnder.2]
      dsimp only
      rw [List.drop_left]
      by_cases hTail : rest = tail
      · subst hTail
        rw [beq_self_eq_true, beq_self_eq_true]
      · have hKey (above : List Component) :
            (above ++ rest == above ++ tail) = false := by
          rw [beq_eq_false_iff_ne]
          exact (List.append_right_injective above).ne hTail
        rw [hKey, hKey]

/-
  References stay below a directory if they do so in each
  text by itself, taken from the names in its key.
-/
theorem staysInside_of_forall
    (hEach :
      ∀ entry ∈ store.documents,
        ∀ document ∈ document? (.ok entry.2),
          ∀ reference ∈ (config.split document).references,
            isAbsolutePath reference = false ∧
              StaysBelow
                ((entry.1.drop
                      base.components.length).map
                    Component.text).dropLast
                (pathNames reference)) :
    store.StaysInside config base := by
  intro place document hDocument reference hReference
  unfold load at hDocument
  cases hFind :
      store.find? (base.below place).components with
  | none =>
      rw [hFind] at hDocument
      cases hDocument
  | some text =>
      rw [hFind] at hDocument
      have hOne :=
        hEach _ (mem_documents_of_find? hFind) document
          hDocument reference hReference
      have hNames :
          (place.names.map Component.name).map
              Component.text =
            place.names := by
        rw [List.map_map]
        exact List.map_id place.names
      dsimp only at hOne
      rw [CanonicalPath.components_below, List.drop_left,
        hNames] at hOne
      exact hOne

end Store

end Transclusion

------------------------------------------------------------
-- Correspondence
------------------------------------------------------------

namespace Transclusion

/- The same names below two directories. -/
def Moved
    (base base' path path' : CanonicalPath) : Prop :=
  ∃ place,
    path = base.below place ∧ path' = base'.below place

/-
  The same resolution of documents in two directories.  What
  is not registered is told by its path.
-/
def moving
    (base base' : CanonicalPath) : Correspondence where
  path := Moved base base'
  fault fault fault' :=
    ∃ path path',
      Moved base base' path path' ∧
        fault = .notRegistered path.text ∧
          fault' = .notRegistered path'.text
  value := Eq
  clash := Eq

namespace Store

variable {store : Store}
variable {config : Config}
variable {base base' : CanonicalPath}

/- What is below one directory is found below the other. -/
theorem moving_finds
    (hUnder : store.IsUnder base)
    (hInside : store.StaysInside config base)
    (place : CanonicalPath) :
    (moving base base').Finds config (base.below place)
      (base'.below place) (store.load (base.below place))
      ((store.move base base').load
        (base'.below place)) := by
  have hMove :
      (store.move base base').find?
          (base'.below place).components =
        store.find? (base.below place).components := by
    rw [CanonicalPath.components_below,
      CanonicalPath.components_below, find?_move hUnder]
  have hInside := hInside place
  unfold load at hInside ⊢
  rw [hMove]
  cases hFind :
      store.find? (base.below place).components with
  | none =>
      exact .missing ⟨_, _, ⟨place, rfl, rfl⟩, rfl, rfl⟩
  | some text =>
      rw [hFind] at hInside
      dsimp only at hInside ⊢
      have hNames := hUnder.names_ne_nil hFind
      rcases lookup_cases (.ok text) with
        ⟨fault, hMissing⟩ | ⟨content, error, hText, hParse⟩ |
        ⟨document, hDocument⟩
      · cases hMissing
      · cases hText
        exact .malformed hParse hParse
      · refine .found hDocument hDocument ?_
        refine
          { references := ?_
            wellFormed := rfl
            content := rfl }
        rw [List.forall₂_same]
        intro reference hReference
        rcases hInside document hDocument reference
            hReference with
          ⟨hRelative, hStays⟩
        exact
          ⟨_,
            CanonicalPath.resolveInclude_below hNames
              hRelative hStays,
            CanonicalPath.resolveInclude_below hNames
              hRelative hStays⟩

/- Resolutions cannot tell which directory they are in. -/
theorem moving_respects
    (hUnder : store.IsUnder base)
    (hInside : store.StaysInside config base) :
    (moving base base').Respects store.load
      (store.move base base').load config where
  unique := by
    rintro _ _ _ _ ⟨place, rfl, rfl⟩ ⟨other, rfl, rfl⟩
    rw [CanonicalPath.below_inj, CanonicalPath.below_inj]
  finds := by
    rintro _ _ ⟨place, rfl, rfl⟩
    exact moving_finds hUnder hInside place
  empty := rfl
  merge := by
    rintro first _ second _ rfl rfl
    exact .refl _

end Store

end Transclusion

------------------------------------------------------------
-- Reports
------------------------------------------------------------

namespace Transclusion

variable {base base' : CanonicalPath}

/- What errors in moved documents have in common. -/
theorem ResolveError.Corresponds.moved
    {error error' : ResolveError}
    (hError :
      error.Corresponds (moving base base') error') :
    error'.rootCause.kind = error.rootCause.kind ∧
      List.Forall₂ (Moved base base') error.includeChain
          error'.includeChain ∧
        (∀ last cycle,
            error.rootCause = .circular last cycle →
              ∃ last' cycle',
                error'.rootCause = .circular last' cycle' ∧
                  Moved base base' last last' ∧
                    List.Forall₂ (Moved base base') cycle
                      cycle') ∧
          ∀ last clash,
            error.rootCause = .conflict last clash →
              ∃ last',
                error'.rootCause = .conflict last' clash ∧
                  Moved base base' last last' := by
  have hCause := hError.rootCause
  refine
    ⟨hCause.kind_eq, hError.includeChain, ?cycle, ?clash⟩
  case cycle =>
    intro last cycle hCycle
    rw [hCycle] at hCause
    generalize error'.rootCause = cause at hCause ⊢
    cases hCause with
    | circular hPath hChain =>
        exact ⟨_, _, rfl, hPath, hChain⟩
  case clash =>
    intro last clash hClash
    rw [hClash] at hCause
    generalize error'.rootCause = cause at hCause ⊢
    cases hCause with
    | conflict hPath hSame =>
        cases hSame
        exact ⟨_, rfl, hPath⟩

namespace Store

/-
  Documents can be moved.  From a document under the new
  directory, the same is resolved as from the one with the
  same names under the old, with corresponding files and
  warnings.  Or both fail for the same kind of reason, along
  corresponding documents, on corresponding cycles and at
  the same conflict.
-/
theorem report_moved
    (store : Store)
    (directory directory' : Except Fault String)
    (config : Config)
    {base base' place : CanonicalPath}
    {path path' : String}
    (hUnder : store.IsUnder base)
    (hInside : store.StaysInside config base)
    (hRoot :
      (store.resolverFrom directory config).canonicalize
          path =
        .ok (base.below place))
    (hRoot' :
      ((store.move base base').resolverFrom directory'
          config).canonicalize path' =
        .ok (base'.below place)) :
    let report :=
      (store.resolverFrom directory config).report path
    let report' :=
      ((store.move base base').resolverFrom directory'
        config).report path'
    (∃ whole whole',
        report = .ok whole ∧ report' = .ok whole' ∧
          whole'.document = whole.document ∧
            List.Forall₂ (Moved base base') whole.files
                whole'.files ∧
              List.Forall₂
                (Warning.Corresponds (moving base base'))
                whole.warnings whole'.warnings) ∨
      ∃ error error',
        report = .error (.resolve error) ∧
          report' = .error (.resolve error') ∧
            error'.rootCause.kind = error.rootCause.kind ∧
              List.Forall₂ (Moved base base')
                  error.includeChain error'.includeChain ∧
                (∀ last cycle,
                    error.rootCause =
                        .circular last cycle →
                      ∃ last' cycle',
                        error'.rootCause =
                            .circular last' cycle' ∧
                          Moved base base' last last' ∧
                            List.Forall₂ (Moved base base')
                              cycle cycle') ∧
                  ∀ last clash,
                    error.rootCause =
                        .conflict last clash →
                      ∃ last',
                        error'.rootCause =
                            .conflict last' clash ∧
                          Moved base base' last last' := by
  intro report report'
  have hAlike :
      ResultCorresponds
        (Failure.Corresponds (moving base base'))
        (Resolution.Corresponds (moving base base')) report
        report' :=
    report_corresponds (moving_respects hUnder hInside)
      hRoot hRoot' ⟨place, rfl, rfl⟩
  cases hReport : report with
  | ok whole =>
      rcases hAlike.exists_of_ok hReport with
        ⟨whole', hReport', hWhole⟩
      exact
        .inl
          ⟨whole, whole', rfl, hReport',
            hWhole.document.symm, hWhole.files,
            hWhole.warnings⟩
  | error failure =>
      rcases hAlike.exists_of_error hReport with
        ⟨failure', hReport', hFailure⟩
      cases hFailure with
      | @resolve error error' hError =>
          exact
            .inr
              ⟨error, error', rfl, hReport', hError.moved⟩

/- A directory of documents. -/
def projectBase : CanonicalPath :=
  .ofText "/srv/app"

/- Another directory, for the same documents. -/
def projectBase' : CanonicalPath :=
  .ofText "/opt"

/- A document that resolves, from its directory. -/
def mainPlace : CanonicalPath :=
  .ofText "main.yaml"

/- A document that includes itself, from its directory. -/
def loopPlace : CanonicalPath :=
  .ofText "loop.yaml"

/- Documents that include each other across directories. -/
def project : Store :=
  ofList
    [("/srv/app/main.yaml",
        "includes: [conf/part.yaml]\nname: main\n"),
      ("/srv/app/conf/part.yaml",
        "includes: [../shared.yaml]\n"),
      ("/srv/app/shared.yaml",
        "includes: shared\nlist: [a]\n"),
      ("/srv/app/loop.yaml",
        "includes: [conf/back.yaml]\n"),
      ("/srv/app/conf/back.yaml",
        "includes: [../loop.yaml]\n")]

/- No reference leads out of the directory. -/
theorem staysInside_project :
    project.StaysInside {} projectBase := by
  apply staysInside_of_forall
  decide +kernel

/- What the first of the documents comes to. -/
def projectReport : Resolution where
  document :=
    .object
      [("list", .array [.string "a"]),
        ("name", .string "main")]
  files :=
    [projectBase.below mainPlace,
      projectBase.below (.ofText "conf/part.yaml"),
      projectBase.below (.ofText "shared.yaml")]
  warnings :=
    [.malformedIncludes
      (projectBase.below (.ofText "shared.yaml"))]

/- The cycle among the documents. -/
def projectCycle : List CanonicalPath :=
  [projectBase.below loopPlace,
    projectBase.below (.ofText "conf/back.yaml"),
    projectBase.below loopPlace]

/-
  A document that resolves does so where it is moved, and a
  cycle is moved along.
-/
theorem report_moved_project :
    let store' := project.move projectBase projectBase'
    let resolver := project.resolverFrom (.ok "/") {}
    let resolver' := store'.resolverFrom (.ok "/") {}
    project.IsUnder projectBase ∧
      project.StaysInside {} projectBase ∧
        (resolver.canonicalize "/srv/app/main.yaml" =
              .ok (projectBase.below mainPlace) ∧
            resolver'.canonicalize "/opt/main.yaml" =
                .ok (projectBase'.below mainPlace) ∧
              resolver.report "/srv/app/main.yaml" =
                  .ok projectReport ∧
                ∃ whole',
                  resolver'.report "/opt/main.yaml" =
                      .ok whole' ∧
                    whole'.document =
                        projectReport.document ∧
                      List.Forall₂
                          (Moved projectBase projectBase')
                          projectReport.files
                          whole'.files) ∧
          resolver.canonicalize "/srv/app/loop.yaml" =
              .ok (projectBase.below loopPlace) ∧
            resolver'.canonicalize "/opt/loop.yaml" =
                .ok (projectBase'.below loopPlace) ∧
              ∃ error' last' cycle',
                resolver'.report "/opt/loop.yaml" =
                    .error (.resolve error') ∧
                  error'.rootCause =
                      .circular last' cycle' ∧
                    List.Forall₂
                      (Moved projectBase projectBase')
                      projectCycle cycle' := by
  intro store' resolver resolver'
  have hUnder : project.IsUnder projectBase := by
    decide +kernel
  refine ⟨hUnder, staysInside_project, ?resolves, ?fails⟩
  case resolves =>
    have hRoot :
        resolver.canonicalize "/srv/app/main.yaml" =
          .ok (projectBase.below mainPlace) := by
      decide +kernel
    have hRoot' :
        resolver'.canonicalize "/opt/main.yaml" =
          .ok (projectBase'.below mainPlace) := by
      decide +kernel
    have hReport :
        resolver.report "/srv/app/main.yaml" =
          .ok projectReport := by
      decide +kernel
    refine ⟨hRoot, hRoot', hReport, ?_⟩
    rcases report_moved project (.ok "/") (.ok "/") {}
        hUnder staysInside_project hRoot hRoot' with
      ⟨whole, whole', hOk, hOk', hDocument, hFiles,
        _hWarnings⟩ |
      ⟨error, _, hFails, _⟩
    · cases hReport.symm.trans hOk
      exact ⟨whole', hOk', hDocument, hFiles⟩
    · cases hReport.symm.trans hFails
  case fails =>
    let error : ResolveError :=
      .within (projectBase.below loopPlace)
        (.within
          (projectBase.below (.ofText "conf/back.yaml"))
          (.circular (projectBase.below loopPlace)
            projectCycle))
    have hRoot :
        resolver.canonicalize "/srv/app/loop.yaml" =
          .ok (projectBase.below loopPlace) := by
      decide +kernel
    have hRoot' :
        resolver'.canonicalize "/opt/loop.yaml" =
          .ok (projectBase'.below loopPlace) := by
      decide +kernel
    have hReport :
        resolver.report "/srv/app/loop.yaml" =
          .error (.resolve error) := by
      decide +kernel
    refine ⟨hRoot, hRoot', ?_⟩
    rcases report_moved project (.ok "/") (.ok "/") {}
        hUnder staysInside_project hRoot hRoot' with
      ⟨_, _, hOk, _⟩ |
      ⟨_, error', hFails, hFails', _hKind, _hChain, hCycle,
        _hClash⟩
    · cases hReport.symm.trans hOk
    · cases hReport.symm.trans hFails
      rcases hCycle _ projectCycle rfl with
        ⟨last', cycle', hCause', _hLast, hMoved⟩
      exact ⟨error', last', cycle', hFails', hCause', hMoved⟩

end Store

end Transclusion
