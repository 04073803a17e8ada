import Transclusion.Proofs.Path.Spelling
import Transclusion.Proofs.Resolve.Correspondence

/-
  References in other spellings.

  Key definitions include:
    * `Transclusion.Parts.Respelled`
    * `Transclusion.Store.Respells`
    * `Transclusion.identical`

  Key theorems include:
    * `Transclusion.Store.respells_insert`
    * `Transclusion.identical_respects`
    * `Transclusion.report_of_respelled`

  What a document includes is told by where its references
  lead, not by how they are written.  So stores in which a
  reference is written in two ways report the same, and see
  the same cycles.
-/

------------------------------------------------------------
-- Respelled Stores
------------------------------------------------------------

namespace Transclusion

/-
  The same document, but that one reference may stand for
  another in its directive.
-/
structure Parts.Respelled
    (reference reference' : String)
    (parts parts' : Parts) : Prop where
  references :
    List.Forall₂
      (fun one one' =>
        one' = one ∨ one = reference ∧ one' = reference')
      parts.references parts'.references
  wellFormed : parts'.wellFormed = parts.wellFormed
  content : parts'.content = parts.content

namespace Store

/-
  Stores with the same texts, but for documents in which one
  reference may stand for another.
-/
def Respells
    (store : Store)
    (config : Config)
    (reference reference' : String)
    (store' : Store) : Prop :=
  ∀ path,
    store'.load path = store.load path ∨
      ∃ document document',
        document? (store.load path) = some document ∧
          document? (store'.load path) = some document' ∧
            (config.split document).Respelled reference
              reference' (config.split document')

variable {store : Store}
variable {config : Config}
variable {reference reference' : String}

/- One document of a store can be written anew. -/
theorem respells_insert
    {key text : String}
    {path : CanonicalPath}
    {document document' : Value}
    (hKey : path.components = components key)
    (hDocument :
      document? (store.load path) = some document)
    (hDocument' : document? (.ok text) = some document')
    (hParts :
      (config.split document).Respelled reference
        reference' (config.split document')) :
    store.Respells config reference reference'
      (store.insert key text) := by
  intro other
  by_cases hOther : other.components = components key
  · have hSame : other = path :=
      CanonicalPath.components_injective
        (hOther.trans hKey.symm)
    subst hSame
    have hText :
        (store.insert key text).load other = .ok text := by
      unfold load
      rw [hOther, find?_insert_self]
    refine .inr ⟨document, document', hDocument, ?_, hParts⟩
    rw [hText, hDocument']
  · refine .inl ?_
    unfold load
    rw [find?_insert_of_ne store key text hOther]

end Store

end Transclusion

------------------------------------------------------------
-- Identical Runs
------------------------------------------------------------

namespace Transclusion

/- The same resolution in every respect. -/
def identical : Correspondence where
  path := Eq
  fault := Eq
  value := Eq
  clash := Eq

/- Errors that correspond in every respect are equal. -/
theorem ResolveError.Corresponds.eq_of_identical
    {error error' : ResolveError}
    (hError : error.Corresponds identical error') :
    error = error' := by
  induction hError with
  | unreadable hPath hFault =>
      cases hPath
      cases hFault
      rfl
  | malformed hPath error =>
      cases hPath
      rfl
  | circular hPath hChain =>
      cases hPath
      rw [eq_of_forall₂ id hChain]
  | conflict hPath hClash =>
      cases hPath
      cases hClash
      rfl
  | tooDeep hPath =>
      cases hPath
      rfl
  | within hPath hInner ih =>
      cases hPath
      rw [ih]

/- Reports that correspond in every respect are equal. -/
theorem ResultCorresponds.eq_of_identical
    {report report' : Except Failure Resolution}
    (hAlike :
      ResultCorresponds (Failure.Corresponds identical)
        (Resolution.Corresponds identical) report report') :
    report' = report := by
  cases hAlike with
  | error hFailure =>
      cases hFailure with
      | resolve hError => rw [hError.eq_of_identical]
  | @ok whole whole' hWhole =>
      have hSame := hWhole.eq id id
      have hDocument : whole.document = whole'.document :=
        hWhole.document
      rw [hSame, ← hDocument]

end Transclusion

------------------------------------------------------------
-- Respelled References
------------------------------------------------------------

namespace Transclusion

namespace Store

variable {store store' : Store}
variable {config : Config}
variable {reference reference' : String}

/- What is found in respelled stores is split alike. -/
theorem respelled_finds
    (hRespells :
      store.Respells config reference reference' store')
    (hSame :
      ∀ including,
        resolveInclude including reference' =
          resolveInclude including reference)
    (path : CanonicalPath) :
    identical.Finds config path path (store.load path)
      (store'.load path) := by
  rcases hRespells path with
    hText | ⟨document, document', hDocument, hDocument', hParts⟩
  · rw [hText]
    rcases lookup_cases (store.load path) with
      ⟨fault, hMissing⟩ | ⟨content, error, hFound, hParse⟩ |
      ⟨document, hDocument⟩
    · rw [hMissing]
      exact .missing rfl
    · rw [hFound]
      exact .malformed hParse hParse
    · refine .found hDocument hDocument ?_
      refine
        { references := ?_
          wellFormed := rfl
          content := rfl }
      rw [List.forall₂_same]
      intro one hOne
      rfl
  · refine .found hDocument hDocument' ?_
    refine
      { references := ?_
        wellFormed := hParts.wellFormed
        content := hParts.content.symm }
    refine hParts.references.imp ?_
    rintro one one' (rfl | ⟨rfl, rfl⟩)
    · rfl
    · exact (hSame path).symm

/- Resolutions cannot tell respelled stores apart. -/
theorem identical_respects
    (hRespells :
      store.Respells config reference reference' store')
    (hSame :
      ∀ including,
        resolveInclude including reference' =
          resolveInclude including reference) :
    identical.Respects store.load store'.load config where
  unique := by
    rintro path _ other _ rfl rfl
    rfl
  finds := by
    rintro path _ rfl
    exact respelled_finds hRespells hSame path
  empty := rfl
  merge := by
    rintro first _ second _ rfl rfl
    exact .refl _

/- Respelled stores report the same. -/
theorem report_eq_of_respells
    (hRespells :
      store.Respells config reference reference' store')
    (hSame :
      ∀ including,
        resolveInclude including reference' =
          resolveInclude including reference)
    (directory : Except Fault String)
    (root : String) :
    (store'.resolverFrom directory config).report root =
      (store.resolverFrom directory config).report root := by
  have hRespects := identical_respects hRespells hSame
  cases hRoot :
      (store.resolverFrom directory config).canonicalize
        root with
  | error fault =>
      have hRoot' :
          (store'.resolverFrom directory
              config).canonicalize root =
            .error fault :=
        hRoot
      rw [Resolver.report_of_invalid hRoot,
        Resolver.report_of_invalid hRoot']
  | ok path =>
      have hAlike :
          ResultCorresponds (Failure.Corresponds identical)
            (Resolution.Corresponds identical)
            ((store.resolverFrom directory config).report
              root)
            ((store'.resolverFrom directory config).report
              root) :=
        report_corresponds hRespects hRoot hRoot rfl
      exact hAlike.eq_of_identical

end Store

/-
  All spellings of a relative path lead to the same document
  from every directory and from every document.  So it makes
  no difference to a report which of them a reference has:
  not to the document, nor to the cycle that is found.
-/
theorem report_of_respelled
    {before after : List String}
    {name path path' : String}
    (hSegments :
      ∀ segment ∈ before ++ after, IsSegment segment)
    (hName : IsName name)
    (hPath : IsSpelling before after name path)
    (hPath' : IsSpelling before after name path') :
    (∀ base : String,
        canonicalizeFrom base path' =
          canonicalizeFrom base path) ∧
      (∀ including : CanonicalPath,
          resolveInclude including path' =
            resolveInclude including path) ∧
        ∀ (store store' : Store) (config : Config)
            (directory : Except Fault String)
            (root : String),
          store.Respells config path path' store' →
            (store'.resolverFrom directory config).report
                root =
              (store.resolverFrom directory config).report
                root := by
  have hJoin (start : CanonicalPath) :
      start.join path' = start.join path := by
    rcases hPath.join_eq hSegments hName start with
      ⟨hAbsolute, hNames⟩
    rcases hPath'.join_eq hSegments hName start with
      ⟨hAbsolute', hNames'⟩
    exact
      CanonicalPath.ext (hAbsolute'.trans hAbsolute.symm)
        (hNames'.trans hNames.symm)
  have hSame (including : CanonicalPath) :
      resolveInclude including path' =
        resolveInclude including path :=
    hJoin including.parent
  refine ⟨fun base => hJoin _, hSame, ?_⟩
  intro store store' config directory root hRespells
  exact
    Store.report_eq_of_respells hRespells hSame directory
      root

/- Documents that include each other in a circle. -/
def circling : Store :=
  Store.ofList
    [("/conf/main.yaml", "includes: [parts/a.yaml]\n"),
      ("/conf/parts/a.yaml",
        "includes: [../main.yaml]\na: 1\n")]

/- The same documents with one reference respelled. -/
def circling' : Store :=
  circling.insert "/conf/parts/a.yaml"
    "includes: [..//x/../main.yaml/]\na: 1\n"

/- One reference is written in two ways. -/
theorem respells_circling :
    circling.Respells {} "../main.yaml"
      "..//x/../main.yaml/" circling' := by
  have hDocument :
      document?
          (circling.load (.ofText "/conf/parts/a.yaml")) =
        some
          (.object
            [("includes", .array [.string "../main.yaml"]),
              ("a", .number (.integer { value := 1 }))]) := by
    decide +kernel
  have hDocument' :
      document?
          (.ok "includes: [..//x/../main.yaml/]\na: 1\n") =
        some
          (.object
            [("includes",
                .array [.string "..//x/../main.yaml/"]),
              ("a", .number (.integer { value := 1 }))]) := by
    decide +kernel
  refine
    Store.respells_insert (by decide +kernel) hDocument
      hDocument' ?_
  exact ⟨.cons (.inr ⟨rfl, rfl⟩) .nil, rfl, rfl⟩

/- A cycle is found under another spelling. -/
theorem report_of_respelled_circling :
    let path := "../main.yaml"
    let path' := "..//x/../main.yaml/"
    let main : CanonicalPath := .ofText "/conf/main.yaml"
    let part : CanonicalPath :=
      .ofText "/conf/parts/a.yaml"
    let failure : Failure :=
      .resolve
        (.within main
          (.within part (.circular main [main, part, main])))
    (∀ segment ∈ [".."] ++ ["main.yaml"],
        IsSegment segment) ∧
      IsName "x" ∧
        IsSpelling [".."] ["main.yaml"] "x" path ∧
          IsSpelling [".."] ["main.yaml"] "x" path' ∧
            circling.Respells {} path path' circling' ∧
              (circling.resolverFrom (.ok "/") {}).report
                  "/conf/main.yaml" =
                .error failure ∧
                (circling'.resolverFrom (.ok "/") {}).report
                    "/conf/main.yaml" =
                  .error failure := by
  intro path path' main part failure
  have hSegments :
      ∀ segment ∈ [".."] ++ ["main.yaml"],
        IsSegment segment := by
    intro segment hSegment
    rw [List.singleton_append, List.mem_pair] at hSegment
    rcases hSegment with rfl | rfl
    · exact ⟨by decide, by decide⟩
    · exact ⟨by decide, by decide⟩
  have hName : IsName "x" :=
    ⟨⟨by decide, by decide⟩, by decide, by decide⟩
  have hPath :
      IsSpelling [".."] ["main.yaml"] "x" path :=
    .plain (spells_intercalate (List.cons_ne_nil _ _))
  have hPath' :
      IsSpelling [".."] ["main.yaml"] "x" path' := by
    have hSpells :=
      Spells.more ".." 1
        (.more "x" 0 (.more ".." 0 (.last "main.yaml" 1)))
    refine .detoured ?_
    simpa [path'] using hSpells
  have hReport :
      (circling.resolverFrom (.ok "/") {}).report
          "/conf/main.yaml" =
        .error failure := by
    decide +kernel
  have hSame :=
    (report_of_respelled hSegments hName hPath hPath').2.2
      circling circling' {} (.ok "/") "/conf/main.yaml"
      respells_circling
  exact
    ⟨hSegments, hName, hPath, hPath', respells_circling,
      hReport, hSame.trans hReport⟩

end Transclusion
