import Mathlib.Data.Set.Card
import Transclusion.Proofs.Resolve.IncludeTree

/-
  Reports by walks through the graph of includes.

  Key definitions include:
    * `Transclusion.follow?`
    * `Transclusion.IncludeTree.visits`
    * `Transclusion.Value.IsTextList`
    * `Transclusion.HasMalformedDirective`

  Key theorems include:
    * `Transclusion.exists_follow?_iff`
    * `Transclusion.IsIncludeTree.mem_visits_iff`
    * `Transclusion.IncludeTree.nodup_visits`
    * `Transclusion.IncludeTree.Assembles.files_eq`
    * `Transclusion.IncludeTree.Assembles.warnings_eq`
    * `Transclusion.Resolver.report_by_walks`

  A walk picks a reference of the document where it stands
  by its position, again and again.  Each walk from the root
  leads to one place of the include tree, and what is loaded
  are the documents at these places, each before those that
  it includes.
-/

------------------------------------------------------------
-- Walks
------------------------------------------------------------

namespace Transclusion

open Relation

/- Where a walk leads, given by positions of references. -/
def follow?
    (source : Source)
    (config : Config) :
    CanonicalPath → List Nat → Option CanonicalPath
  | path, [] => some path
  | path, position :: rest => do
      let document ← document? (source path)
      let reference ←
        (config.split document).references[position]?
      follow? source config
        (resolveInclude path reference) rest

variable {source : Source}
variable {config : Config}
variable {path file : CanonicalPath}

/- A longer walk goes on from one of the references. -/
theorem follow?_cons_eq_some_iff
    {position : Nat}
    {rest : List Nat} :
    follow? source config path (position :: rest) =
        some file ↔
      ∃ document,
        document? (source path) = some document ∧
          ∃ reference,
            (config.split document).references[position]? =
                some reference ∧
              follow? source config
                  (resolveInclude path reference) rest =
                some file := by
  rw [follow?]
  simp only [Option.bind_eq_bind, Option.bind_eq_some_iff]

/- Walks lead where the includes lead. -/
theorem exists_follow?_iff :
    (∃ walk,
        follow? source config path walk = some file) ↔
      ReflTransGen (Includes source config) path file := by
  constructor
  · rintro ⟨walk, hWalk⟩
    induction walk generalizing path with
    | nil =>
        rw [follow?, Option.some.injEq] at hWalk
        subst hWalk
        exact .refl
    | cons position rest ih =>
        rcases follow?_cons_eq_some_iff.mp hWalk with
          ⟨document, hDocument, reference, hReference,
            hRest⟩
        have hMem := List.mem_of_getElem? hReference
        have hIncludes :
            Includes source config path
              (resolveInclude path reference) :=
          ⟨document, hDocument, reference, hMem, rfl⟩
        exact .head hIncludes (ih hRest)
  · intro hLeads
    induction hLeads using ReflTransGen.head_induction_on
      with
    | refl => exact ⟨[], rfl⟩
    | head hIncludes _hLeads ih =>
        rcases hIncludes with
          ⟨document, hDocument, reference, hMem, rfl⟩
        rcases List.mem_iff_getElem?.mp hMem with
          ⟨position, hReference⟩
        rcases ih with ⟨rest, hRest⟩
        exact
          ⟨position :: rest,
            follow?_cons_eq_some_iff.mpr
              ⟨document, hDocument, reference, hReference,
                hRest⟩⟩

end Transclusion

------------------------------------------------------------
-- Places of a Tree
------------------------------------------------------------

namespace Transclusion

namespace IncludeTree

mutual

/-
  The documents of a tree, each one before its includes,
  with the walks that lead to them.
-/
def visits : IncludeTree → List (List Nat × CanonicalPath)
  | .node path _ includes =>
      ([], path) :: visitsFrom 0 includes

/- The documents of trees at positions from one on. -/
def visitsFrom :
    Nat → List IncludeTree →
      List (List Nat × CanonicalPath)
  | _, [] => []
  | position, tree :: rest =>
      (visits tree).map
          (fun visit => (position :: visit.1, visit.2)) ++
        visitsFrom (position + 1) rest

end

/- A document of trees is one of the tree at its position. -/
theorem mem_visitsFrom_iff
    {start : Nat}
    {trees : List IncludeTree}
    {walk : List Nat}
    {file : CanonicalPath} :
    (walk, file) ∈ visitsFrom start trees ↔
      ∃ position rest tree,
        walk = (start + position) :: rest ∧
          trees[position]? = some tree ∧
            (rest, file) ∈ tree.visits := by
  induction trees generalizing start with
  | nil => simp [visitsFrom]
  | cons first others ih =>
      rw [visitsFrom, List.mem_append, List.mem_map, ih]
      constructor
      · rintro (⟨visit, hVisit, hEq⟩ |
          ⟨position, rest, tree, rfl, hTree, hVisit⟩)
        · cases hEq
          exact ⟨0, visit.1, first, rfl, rfl, hVisit⟩
        · refine
            ⟨position + 1, rest, tree, ?_, hTree, hVisit⟩
          congr 1
          omega
      · rintro ⟨position, rest, tree, rfl, hTree, hVisit⟩
        cases position with
        | zero =>
            cases hTree
            exact .inl ⟨(rest, file), hVisit, rfl⟩
        | succ position =>
            refine
              .inr
                ⟨position, rest, tree, ?_, hTree, hVisit⟩
            congr 1
            omega

/- Trees with different walks in each have them in all. -/
theorem nodup_visitsFrom
    {trees : List IncludeTree}
    (hTrees :
      ∀ tree ∈ trees, (tree.visits.map (·.1)).Nodup)
    (start : Nat) :
    ((visitsFrom start trees).map (·.1)).Nodup := by
  induction trees generalizing start with
  | nil => exact List.nodup_nil
  | cons tree rest ih =>
      rw [List.forall_mem_cons] at hTrees
      rw [visitsFrom, List.map_append, List.nodup_append']
      refine ⟨?first, ih hTrees.2 (start + 1), ?apart⟩
      case first =>
        have hCons :
            (tree.visits.map fun visit =>
                  (start :: visit.1, visit.2)).map (·.1) =
              (tree.visits.map (·.1)).map
                (start :: ·) := by
          rw [List.map_map, List.map_map]
          rfl
        rw [hCons]
        exact hTrees.1.map List.cons_injective
      case apart =>
        -- The later trees are at greater positions.
        intro walk hFirst hLater
        rw [List.map_map] at hFirst
        rcases List.mem_map.mp hFirst with
          ⟨visit, _hVisit, rfl⟩
        rcases List.mem_map.mp hLater with
          ⟨⟨walk, file⟩, hVisit, hEq⟩
        rcases mem_visitsFrom_iff.mp hVisit with
          ⟨position, walk', _, rfl, _hTree, _hVisit⟩
        have hHead := (List.cons.inj hEq).1
        omega

/- Different places of a tree have different walks. -/
theorem nodup_visits
    (tree : IncludeTree) :
    (tree.visits.map (·.1)).Nodup := by
  induction tree using IncludeTree.induction with
  | node path document includes ih =>
      rw [visits, List.map_cons, List.nodup_cons]
      refine ⟨?_, nodup_visitsFrom ih 0⟩
      intro hMem
      rcases List.mem_map.mp hMem with
        ⟨⟨walk, file⟩, hVisit, hEmpty⟩
      rcases mem_visitsFrom_iff.mp hVisit with
        ⟨position, rest, _, rfl, _hTree, _hVisit⟩
      cases hEmpty

end IncludeTree

/- Related lists are related at every position. -/
theorem exists_getElem?_of_forall₂
    {α β : Type}
    {R : α → β → Prop}
    {as : List α}
    {bs : List β}
    {position : Nat}
    {a : α}
    (hRelated : List.Forall₂ R as bs)
    (hAt : as[position]? = some a) :
    ∃ b, bs[position]? = some b ∧ R a b := by
  induction hRelated generalizing position with
  | nil => cases hAt
  | @cons first b _ _ hFirst _hRest ih =>
      cases position with
      | zero =>
          cases hAt
          exact ⟨b, rfl, hFirst⟩
      | succ position => exact ih hAt

/- The places of an include tree are where walks lead. -/
theorem IsIncludeTree.mem_visits_iff
    {source : Source}
    {config : Config}
    {path file : CanonicalPath}
    {tree : IncludeTree}
    {walk : List Nat}
    (hTree : IsIncludeTree source config path tree) :
    (walk, file) ∈ tree.visits ↔
      follow? source config path walk = some file := by
  induction tree using IncludeTree.induction generalizing
      path walk with
  | node path document includes ih =>
      cases hTree with
      | node hDocument hIncludes =>
          rw [List.forall₂_map_left_iff] at hIncludes
          rw [IncludeTree.visits, List.mem_cons,
            IncludeTree.mem_visitsFrom_iff]
          -- A walk that goes on is one of the tree at its
          -- first position.
          cases walk with
          | nil => simp [follow?, eq_comm]
          | cons position rest =>
              constructor
              · rintro (hRoot |
                  ⟨_, _, tree, hWalk, hPlace, hVisit⟩)
                · cases hRoot
                · rw [Nat.zero_add, List.cons.injEq] at hWalk
                  rcases hWalk with ⟨rfl, rfl⟩
                  rcases exists_getElem?_of_forall₂
                      hIncludes.flip hPlace with
                    ⟨reference, hReference, hBelow⟩
                  have hMem := List.mem_of_getElem? hPlace
                  have hRest := (ih tree hMem hBelow).mp hVisit
                  exact
                    follow?_cons_eq_some_iff.mpr
                      ⟨document, hDocument, reference,
                        hReference, hRest⟩
              · intro hWalk
                rcases follow?_cons_eq_some_iff.mp hWalk
                  with
                  ⟨other, hOther, reference, hReference,
                    hRest⟩
                cases hDocument.symm.trans hOther
                rcases exists_getElem?_of_forall₂ hIncludes
                    hReference with
                  ⟨tree, hPlace, hBelow⟩
                have hMem := List.mem_of_getElem? hPlace
                have hVisit := (ih tree hMem hBelow).mpr hRest
                exact
                  .inr
                    ⟨position, rest, tree,
                      by rw [Nat.zero_add], hPlace, hVisit⟩

end Transclusion

------------------------------------------------------------
-- Malformed Directives
------------------------------------------------------------

namespace Transclusion

/- A list of texts and of nothing else. -/
def Value.IsTextList
    (value : Value) : Prop :=
  ∃ items, value = .array items ∧
    ∀ item ∈ items, ∃ text, item = .string text

/- The texts of a value are there if it is a list of texts. -/
theorem Value.strings?_isSome_iff
    {value : Value} :
    value.strings?.isSome = true ↔ value.IsTextList := by
  cases value with
  | array items =>
      have hItems :
          (items.mapM Value.string?).isSome = true ↔
            ∀ item ∈ items, ∃ text,
              item = .string text := by
        induction items with
        | nil => simp
        | cons item rest ih =>
            rw [List.mapM_cons, List.forall_mem_cons, ← ih]
            cases item with
            | string text =>
                cases rest.mapM Value.string? <;>
                  simp [Value.string?]
            | _ => simp [Value.string?]
      rw [Value.strings?, hItems]
      constructor
      · intro hTexts
        exact ⟨items, rfl, hTexts⟩
      · rintro ⟨_, hEq, hTexts⟩
        cases hEq
        exact hTexts
  | _ => simp [Value.strings?, Value.IsTextList]

instance
    (value : Value) : Decidable value.IsTextList :=
  decidable_of_iff _ Value.strings?_isSome_iff

/-
  A document with something else than a list of texts as its
  directive.
-/
def HasMalformedDirective
    (source : Source)
    (config : Config)
    (path : CanonicalPath) : Prop :=
  ∃ document ∈ document? (source path),
    ∃ directive ∈ document.field? config.includesKey,
      ¬ directive.IsTextList

instance
    (source : Source)
    (config : Config) :
    DecidablePred (HasMalformedDirective source config) :=
  fun _path => Option.decidableExistsMem _

/- The parts tell if the directive is malformed. -/
theorem Config.wellFormed_split_iff
    {config : Config}
    {document : Value} :
    (config.split document).wellFormed = true ↔
      ∀ directive ∈ document.field? config.includesKey,
        directive.IsTextList := by
  cases document with
  | object fields =>
      rw [Value.field?_object]
      unfold Config.split
      dsimp only
      cases Fields.get? fields config.includesKey with
      | none => simp
      | some directive => simp [Value.strings?_isSome_iff]
  | _ => simp [Config.split, Value.field?]

/- What is warned of are malformed directives. -/
theorem Config.ownWarnings_eq
    {source : Source}
    {config : Config}
    {path : CanonicalPath}
    {document : Value}
    (hDocument : document? (source path) = some document) :
    config.ownWarnings path document =
      if HasMalformedDirective source config path then
        [.malformedIncludes path]
      else
        [] := by
  have hIff :
      (config.split document).wellFormed = true ↔
        ¬ HasMalformedDirective source config path := by
    rw [Config.wellFormed_split_iff]
    simp [HasMalformedDirective, hDocument]
  unfold Config.ownWarnings
  by_cases hMalformed :
      HasMalformedDirective source config path
  · rw [if_pos hMalformed,
      if_neg (mt hIff.mp (not_not.mpr hMalformed))]
  · rw [if_neg hMalformed, if_pos (hIff.mpr hMalformed)]

end Transclusion

------------------------------------------------------------
-- Reports
------------------------------------------------------------

namespace Transclusion

namespace IncludeTree.Assembles

variable {source : Source}
variable {config : Config}
variable {path : CanonicalPath}
variable {tree : IncludeTree}
variable {whole : Resolution}

/- What is loaded are the documents of the tree. -/
theorem files_eq
    (hAssembles : tree.Assembles config whole) :
    whole.files = tree.visits.map (·.2) := by
  apply hAssembles.induction
    (motive := fun tree whole =>
      whole.files = tree.visits.map (·.2))
  intro path document includes included whole hIncluded
    hWhole
  have hFrom :
      ∀ start,
        included.flatMap (·.files) =
          (visitsFrom start includes).map (·.2) := by
    clear hWhole
    induction hIncluded with
    | nil =>
        intro start
        rfl
    | cons hFirst _hRest ih =>
        intro start
        rw [List.flatMap_cons, visitsFrom, List.map_append,
          List.map_map, hFirst, ih (start + 1)]
        rfl
  rw [hWhole.files, visits, List.map_cons, hFrom 0]

/- What is warned of are the malformed ones among them. -/
theorem warnings_eq
    (hTree : IsIncludeTree source config path tree)
    (hAssembles : tree.Assembles config whole) :
    whole.warnings =
      (whole.files.filter fun file =>
          HasMalformedDirective source config file).map
        .malformedIncludes := by
  refine
    hAssembles.induction
      (motive := fun tree whole =>
        ∀ path,
          IsIncludeTree source config path tree →
            whole.warnings =
              (whole.files.filter fun file =>
                  HasMalformedDirective source config
                    file).map
                .malformedIncludes)
      ?_ path hTree
  clear hTree hAssembles
  intro path document includes included whole hIncluded
    hWhole _ hTree
  rcases hTree with ⟨hDocument, hIncludes⟩
  have hBelow :
      included.flatMap (·.warnings) =
        ((included.flatMap (·.files)).filter fun file =>
            HasMalformedDirective source config file).map
          .malformedIncludes := by
    generalize
      (config.split document).references.map
          (resolveInclude path) = paths
      at hIncludes
    clear hWhole hDocument
    induction hIncluded generalizing paths with
    | nil => rfl
    | cons hFirst _hRest ih =>
        rcases hIncludes with _ | ⟨hTree, hTrees⟩
        rw [List.flatMap_cons, List.flatMap_cons,
          List.filter_append, List.map_append,
          ← hFirst _ hTree, ← ih _ hTrees]
  rw [hWhole.warnings, hWhole.files, hBelow,
    Config.ownWarnings_eq hDocument, List.filter_cons]
  split <;> simp_all

/- What is loaded begins with the root. -/
theorem head?_files
    (hTree : IsIncludeTree source config path tree)
    (hAssembles : tree.Assembles config whole) :
    whole.files.head? = some path := by
  rw [hAssembles.files_eq]
  cases hTree with
  | node _hDocument _hIncludes => rfl

/- A document is loaded if a walk leads to it. -/
theorem mem_files_iff
    {file : CanonicalPath}
    (hTree : IsIncludeTree source config path tree)
    (hAssembles : tree.Assembles config whole) :
    file ∈ whole.files ↔
      Relation.ReflTransGen (Includes source config) path
        file := by
  rw [hAssembles.files_eq, List.mem_map,
    ← exists_follow?_iff]
  constructor
  · rintro ⟨⟨walk, _⟩, hVisit, rfl⟩
    exact ⟨walk, hTree.mem_visits_iff.mp hVisit⟩
  · rintro ⟨walk, hWalk⟩
    exact
      ⟨(walk, file), hTree.mem_visits_iff.mpr hWalk, rfl⟩

/- A document is loaded once for each walk to it. -/
theorem encard_walks
    (hTree : IsIncludeTree source config path tree)
    (hAssembles : tree.Assembles config whole)
    (file : CanonicalPath) :
    {walk | follow? source config path walk =
        some file}.encard =
      whole.files.count file := by
  let there :=
    tree.visits.filter fun visit => visit.2 = file
  have hNodup : (there.map (·.1)).Nodup :=
    tree.nodup_visits.sublist
      (List.filter_sublist.map _)
  have hWalks :
      {walk | follow? source config path walk =
          some file} =
        ((there.map (·.1)).toFinset : Set (List Nat)) := by
    ext walk
    rw [Set.mem_ofPred_eq, ← hTree.mem_visits_iff,
      Finset.mem_coe, List.mem_toFinset, List.mem_map]
    constructor
    · intro hVisit
      exact ⟨(walk, file), by simpa [there], rfl⟩
    · rintro ⟨⟨_, _⟩, hThere, rfl⟩
      rcases List.mem_filter.mp hThere with ⟨hVisit, hFile⟩
      rw [decide_eq_true_eq] at hFile
      subst hFile
      exact hVisit
  have hLength :
      whole.files.count file = there.length := by
    rw [hAssembles.files_eq, List.count, List.countP_map,
      List.countP_eq_length_filter]
    rfl
  rw [hWalks, Set.encard_coe_eq_coe_finsetCard,
    List.toFinset_card_of_nodup hNodup, List.length_map,
    hLength]

end IncludeTree.Assembles

end Transclusion

------------------------------------------------------------
-- Resolvers
------------------------------------------------------------

namespace Transclusion

open Relation

/-
  A report is complete.  From a root that is found, what is
  loaded is what the root leads to, as often as there are
  walks to it and with the root first, and the warnings are
  of the malformed directives, in the same order.  From one
  that is missing, nothing is loaded, and this is warned of.
-/
theorem Resolver.report_by_walks
    (resolver : Resolver)
    (path : String)
    {root : CanonicalPath}
    {whole : Resolution}
    (hRoot : resolver.canonicalize path = .ok root)
    (hReport : resolver.report path = .ok whole) :
    (∀ content,
        resolver.source root = .ok content →
          (∀ file,
              file ∈ whole.files ↔
                ReflTransGen
                  (Includes resolver.source resolver.config)
                  root file) ∧
            (∀ file,
                {walk | follow? resolver.source
                    resolver.config root walk =
                    some file}.encard =
                  whole.files.count file) ∧
              whole.files.head? = some root ∧
                whole.warnings =
                  (whole.files.filter fun file =>
                      HasMalformedDirective resolver.source
                        resolver.config file).map
                    .malformedIncludes) ∧
      ∀ fault,
        resolver.source root = .error fault →
          whole.files = [] ∧
            whole.warnings = [.missingRoot root fault] := by
  rcases report_cases hRoot hReport with
    ⟨fault, hMissing, rfl⟩ | ⟨tree, hTree, hAssembles⟩
  · constructor
    · intro content hContent
      rw [hMissing] at hContent
      cases hContent
    · intro other hOther
      cases hMissing.symm.trans hOther
      exact ⟨rfl, rfl⟩
  · constructor
    · intro content _hContent
      exact
        ⟨fun file => hAssembles.mem_files_iff hTree,
          hAssembles.encard_walks hTree,
          hAssembles.head?_files hTree,
          hAssembles.warnings_eq hTree⟩
    · intro fault hMissing
      rcases hTree.exists_document with
        ⟨document, hDocument⟩
      rw [hMissing] at hDocument
      cases hDocument

namespace Store

/- The path of the document that both includes share. -/
def sharedPath : CanonicalPath :=
  .ofText "/conf/common.yaml"

/- What the document that includes both comes to. -/
def sharingReport : Resolution where
  document :=
    .object
      [("list",
          .array
            [.string "c", .string "x", .string "c",
              .string "y"]),
        ("name", .string "main")]
  files :=
    [sharingRoot, .ofText "/conf/x.yaml", sharedPath,
      .ofText "/conf/sub/y.yaml", sharedPath]
  warnings :=
    [.malformedIncludes sharedPath,
      .malformedIncludes sharedPath]

/-
  What is shared is loaded and warned of twice, and a root
  that is missing is warned of.
-/
theorem report_by_walks_sharing :
    let resolver := sharing.resolverFrom (.ok "/") {}
    (resolver.canonicalize "/conf/main.yaml" =
          .ok sharingRoot ∧
        ∃ whole,
          resolver.report "/conf/main.yaml" = .ok whole ∧
            (∃ content,
              resolver.source sharingRoot = .ok content) ∧
            ReflTransGen (Includes resolver.source {})
              sharingRoot sharedPath ∧
              {walk | follow? resolver.source {} sharingRoot
                  walk =
                  some sharedPath}.encard =
                2 ∧
                whole.files.head? = some sharingRoot ∧
                  (whole.files.filter fun file =>
                      HasMalformedDirective resolver.source
                        {} file).map
                      Warning.malformedIncludes =
                    [.malformedIncludes sharedPath,
                      .malformedIncludes sharedPath]) ∧
      ∃ whole,
        resolver.canonicalize "/none.yaml" =
            .ok (.ofText "/none.yaml") ∧
          resolver.report "/none.yaml" = .ok whole ∧
            resolver.source (.ofText "/none.yaml") =
                .error (.notRegistered "/none.yaml") ∧
              whole.files = [] ∧
                whole.warnings =
                  [.missingRoot (.ofText "/none.yaml")
                    (.notRegistered "/none.yaml")] := by
  intro resolver
  constructor
  · have hRoot :
        resolver.canonicalize "/conf/main.yaml" =
          .ok sharingRoot := by
      decide +kernel
    have hReport :
        resolver.report "/conf/main.yaml" =
          .ok sharingReport := by
      decide +kernel
    have hContent :
        resolver.source sharingRoot =
          .ok
            "includes: [x.yaml, sub/y.yaml]\nname: main\n" := by
      decide +kernel
    rcases (resolver.report_by_walks "/conf/main.yaml" hRoot
        hReport).1 _ hContent with
      ⟨hFiles, hWalks, hHead, hWarnings⟩
    have hCount :
        sharingReport.files.count sharedPath = 2 := by
      decide
    refine
      ⟨hRoot, sharingReport, hReport, ⟨_, hContent⟩,
        (hFiles sharedPath).mp (by decide), ?_,
        hHead, hWarnings.symm⟩
    have hTwice := hWalks sharedPath
    rw [hCount] at hTwice
    exact hTwice
  · have hRoot :
        resolver.canonicalize "/none.yaml" =
          .ok (.ofText "/none.yaml") := by
      decide +kernel
    have hReport :
        resolver.report "/none.yaml" =
          .ok
            ⟨.empty, [],
              [.missingRoot (.ofText "/none.yaml")
                (.notRegistered "/none.yaml")]⟩ := by
      decide +kernel
    have hMissing :
        resolver.source (.ofText "/none.yaml") =
          .error (.notRegistered "/none.yaml") := by
      decide +kernel
    rcases (resolver.report_by_walks "/none.yaml" hRoot
        hReport).2 _ hMissing with
      ⟨hFiles, hWarnings⟩
    exact
      ⟨_, hRoot, hReport, hMissing, hFiles, hWarnings⟩

end Store

end Transclusion
