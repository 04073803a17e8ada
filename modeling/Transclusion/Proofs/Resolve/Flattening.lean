import Mathlib.Data.List.Pairwise
import Transclusion.Proofs.Merge.Associativity
import Transclusion.Proofs.Resolve.IncludeTree
import Transclusion.Proofs.Value.Parsed

/-
  Include trees merged as one list of documents.

  Key definitions include:
    * `Transclusion.Regroupable`
    * `Transclusion.Flattens`

  Key theorems include:
    * `Transclusion.Regroupable.foldlM_merge`
    * `Transclusion.IncludeTree.Assembles.mergeAll_contents`
    * `Transclusion.IncludeTree.mergeAll_pieces`
    * `Transclusion.Resolver.mergeAll_contents_of_resolve`

  Compatible objects can be merged in groups or one after
  another.  So a tree of such documents comes to the merge
  of their contents in post-order, and documents that only
  include others can be put in or left out.
-/

------------------------------------------------------------
-- Regrouping
------------------------------------------------------------

namespace Transclusion

/-
  Documents that can be merged in any groups: objects with
  distinct keys, each compatible with each.
-/
structure Regroupable
    (documents : List Value) : Prop where
  object :
    ∀ document ∈ documents, document.kind = .object
  distinct :
    ∀ document ∈ documents,
      document.hasDistinctKeys = true
  compatible :
    ∀ a ∈ documents, ∀ b ∈ documents,
      a.compatible b = true

namespace Regroupable

variable {options : MergeOptions}
variable {documents : List Value}
variable {a b c merged : Value}

/- Documents compatible in pairs are compatible with each other. -/
theorem of_pairwise
    (hObject :
      ∀ document ∈ documents, document.kind = .object)
    (hDistinct :
      ∀ document ∈ documents,
        document.hasDistinctKeys = true)
    (hPairwise :
      documents.Pairwise fun a b =>
        a.compatible b = true) :
    Regroupable documents := by
  have hSymm :
      Std.Symm fun a b : Value => a.compatible b = true :=
    ⟨fun _ _ => Value.compatible_symm⟩
  have hSelf :
      ∀ document ∈ documents,
        document.compatible document = true :=
    fun document hMem =>
      Value.compatible_refl (hDistinct document hMem)
  have hAll := hPairwise.forall_of_forall hSelf
  exact
    ⟨hObject, hDistinct, fun a hA b hB => hAll hA hB⟩

/- Some of the documents can be regrouped as well. -/
theorem mono
    {others : List Value}
    (hGroup : Regroupable documents)
    (hSubset : others ⊆ documents) :
    Regroupable others := by
  constructor
  · exact fun other hMem =>
      hGroup.object other (hSubset hMem)
  · exact fun other hMem =>
      hGroup.distinct other (hSubset hMem)
  · exact fun a hA b hB =>
      hGroup.compatible a (hSubset hA) b (hSubset hB)

/- One more document has to be compatible with the others. -/
theorem cons
    {document : Value}
    (hGroup : Regroupable documents)
    (hObject : document.kind = .object)
    (hDistinct : document.hasDistinctKeys = true)
    (hCompatible :
      ∀ other ∈ documents,
        document.compatible other = true) :
    Regroupable (document :: documents) := by
  constructor
  · exact
      List.forall_mem_cons.mpr ⟨hObject, hGroup.object⟩
  · exact
      List.forall_mem_cons.mpr ⟨hDistinct, hGroup.distinct⟩
  · intro a hA b hB
    rcases List.mem_cons.mp hA with rfl | hOldA
    · rcases List.mem_cons.mp hB with rfl | hOldB
      · exact Value.compatible_refl hDistinct
      · exact hCompatible b hOldB
    · rcases List.mem_cons.mp hB with rfl | hOldB
      · exact Value.compatible_symm (hCompatible a hOldA)
      · exact hGroup.compatible a hOldA b hOldB

/- An object without fields can be added. -/
theorem cons_empty
    (hGroup : Regroupable documents) :
    Regroupable (.empty :: documents) := by
  refine hGroup.cons rfl rfl ?_
  intro other hOther
  rcases Value.kind_eq_object_iff.mp
      (hGroup.object other hOther) with
    ⟨fields, rfl⟩
  rfl

/- The merge of two documents can be added. -/
theorem cons_merge
    (hGroup : Regroupable documents)
    (hA : a ∈ documents)
    (hB : b ∈ documents)
    (hOk : merge options a b = .ok merged) :
    Regroupable (merged :: documents) := by
  have hDistinctA := hGroup.distinct a hA
  have hDistinctB := hGroup.distinct b hB
  have hWithA := hGroup.compatible a hA
  have hWithB := hGroup.compatible b hB
  rcases exists_fields_of_merge (hGroup.object a hA)
      (hGroup.object b hB) hOk with
    ⟨as, bs, fields, rfl, rfl, rfl, hFields⟩
  refine
    hGroup.cons rfl
      (hasDistinctKeys_of_mergeFields hDistinctA hDistinctB
        hFields)
      ?_
  intro other hOther
  have hCompatibleA := hWithA other hOther
  have hCompatibleB := hWithB other hOther
  rcases Value.kind_eq_object_iff.mp
      (hGroup.object other hOther) with
    ⟨others, rfl⟩
  exact
    Value.compatible_of_mergeFields hCompatibleA
      hCompatibleB hFields

/- The merge of some of the documents can be added. -/
theorem cons_foldlM
    {group : List Value}
    (hGroup : Regroupable documents)
    (hA : a ∈ documents)
    (hSubset : group ⊆ documents)
    (hOk : group.foldlM (merge options) a = .ok merged) :
    Regroupable (merged :: documents) := by
  induction group generalizing a documents with
  | nil =>
      cases hOk
      refine hGroup.mono ?_
      exact List.cons_subset.mpr ⟨hA, List.Subset.refl _⟩
  | cons b rest ih =>
      rw [List.cons_subset] at hSubset
      rcases foldlM_merge_cons_eq_ok_iff.mp hOk with
        ⟨next, hNext, hRest⟩
      have hMore :=
        ih (hGroup.cons_merge hA hSubset.1 hNext)
          List.mem_cons_self
          (List.subset_cons_of_subset _ hSubset.2) hRest
      refine hMore.mono ?_
      exact
        List.cons_subset_cons _ (List.subset_cons_self _ _)

/- Any three of the documents merge in either grouping. -/
theorem associates
    (hGroup : Regroupable documents)
    (hA : a ∈ documents)
    (hB : b ∈ documents)
    (hC : c ∈ documents) :
    Associates (merge options) a b c := by
  have hDistinctA := hGroup.distinct a hA
  have hDistinctB := hGroup.distinct b hB
  have hDistinctC := hGroup.distinct c hC
  have hAB := hGroup.compatible a hA b hB
  have hBC := hGroup.compatible b hB c hC
  rcases Value.kind_eq_object_iff.mp (hGroup.object a hA)
    with ⟨as, rfl⟩
  rcases Value.kind_eq_object_iff.mp (hGroup.object b hB)
    with ⟨bs, rfl⟩
  rcases Value.kind_eq_object_iff.mp (hGroup.object c hC)
    with ⟨cs, rfl⟩
  exact
    (mergeFields_associates hDistinctA hDistinctB
      hDistinctC hAB hBC).of_map fun _ _ => rfl

/-
  A group merged by itself and then into a document is
  merged into the document one by one.
-/
theorem foldlM_merge
    {group : List Value}
    (hGroup : Regroupable documents)
    (hA : a ∈ documents)
    (hSubset : group ⊆ documents) :
    group.foldlM (merge options) a = .ok merged ↔
      ∃ document, mergeAll options group = .ok document ∧
        merge options a document = .ok merged := by
  induction group generalizing a documents merged with
  | nil =>
      have hNeutral :
          merge options a .empty = .ok a :=
        merge_empty_right (hGroup.object a hA)
      simp [mergeAll, pure, Except.pure, hNeutral]
  | cons b rest ih =>
      rw [List.cons_subset] at hSubset
      have hFirst :
          ∀ document,
            mergeAll options (b :: rest) = .ok document ↔
              ∃ inner, mergeAll options rest = .ok inner ∧
                merge options b inner = .ok document := by
        intro document
        have hB : merge options .empty b = .ok b :=
          merge_empty_left (hGroup.object b hSubset.1)
        rw [mergeAll, foldlM_merge_cons_eq_ok_iff, hB]
        simpa using ih hGroup hSubset.1 hSubset.2
      have hAssociates :
          ∀ inner, mergeAll options rest = .ok inner →
            Associates (merge options) a b inner := by
        intro inner hInner
        have hMore :=
          hGroup.cons_empty.cons_foldlM List.mem_cons_self
            (List.subset_cons_of_subset _ hSubset.2) hInner
        refine
          hMore.associates
            (List.mem_cons_of_mem _
              (List.mem_cons_of_mem _ hA))
            (List.mem_cons_of_mem _
              (List.mem_cons_of_mem _ hSubset.1))
            List.mem_cons_self
      constructor
      · intro hOk
        rcases foldlM_merge_cons_eq_ok_iff.mp hOk with
          ⟨next, hNext, hRest⟩
        have hMore := hGroup.cons_merge hA hSubset.1 hNext
        rcases (ih hMore List.mem_cons_self
            (List.subset_cons_of_subset _
              hSubset.2)).mp hRest with
          ⟨inner, hInner, hMerged⟩
        rcases (hAssociates inner hInner merged).mp
            ⟨next, hNext, hMerged⟩ with
          ⟨document, hDocument, hMerged'⟩
        exact
          ⟨document,
            (hFirst document).mpr ⟨inner, hInner, hDocument⟩,
            hMerged'⟩
      · rintro ⟨document, hDocument, hMerged⟩
        rcases (hFirst document).mp hDocument with
          ⟨inner, hInner, hDocument⟩
        rcases (hAssociates inner hInner merged).mpr
            ⟨document, hDocument, hMerged⟩ with
          ⟨next, hNext, hMerged'⟩
        have hMore := hGroup.cons_merge hA hSubset.1 hNext
        refine
          foldlM_merge_cons_eq_ok_iff.mpr
            ⟨next, hNext, ?_⟩
        exact
          (ih hMore List.mem_cons_self
            (List.subset_cons_of_subset _
              hSubset.2)).mpr
            ⟨inner, hInner, hMerged'⟩

end Regroupable

end Transclusion

------------------------------------------------------------
-- Contents of Documents
------------------------------------------------------------

namespace Transclusion

/- Without its directive, a document keeps distinct keys. -/
theorem hasDistinctKeys_of_split
    {config : Config}
    {document : Value}
    (hDistinct : document.hasDistinctKeys = true) :
    (config.split document).content.hasDistinctKeys =
      true := by
  unfold Config.split
  split
  · rename_i fields
    split
    · exact hDistinct
    · rw [Value.hasDistinctKeys_object_iff] at hDistinct ⊢
      have hSublist :
          (Fields.erase fields config.includesKey).Sublist
            fields :=
        List.filter_sublist
      exact
        ⟨hDistinct.1.sublist (hSublist.map _),
          fun field hField =>
            hDistinct.2 field (hSublist.subset hField)⟩
  · exact hDistinct

/- The documents of an include tree are found. -/
theorem IsIncludeTree.exists_of_mem_postorder
    {source : Source}
    {config : Config}
    {path : CanonicalPath}
    {tree : IncludeTree}
    {document : Value}
    (hTree : IsIncludeTree source config path tree)
    (hMem : document ∈ tree.postorder) :
    ∃ found, document? (source found) = some document := by
  induction tree using IncludeTree.induction generalizing
      path with
  | node own content includes ih =>
      cases hTree with
      | node hDocument hIncludes =>
          rw [IncludeTree.postorder,
            IncludeTree.postorderAll_eq] at hMem
          rcases List.mem_append.mp hMem with
            hBelow | hOwn
          · rcases List.mem_flatten.mp hBelow with
              ⟨group, hGroup, hMem⟩
            rcases List.mem_map.mp hGroup with
              ⟨tree, hInclude, rfl⟩
            rcases exists_of_mem_of_forall₂
                hIncludes.flip hInclude with
              ⟨included, _hMem, hIncluded⟩
            exact ih tree hInclude hIncluded hMem
          · rw [List.mem_singleton.mp hOwn]
            exact ⟨own, hDocument⟩

/- The contents of an include tree have distinct keys. -/
theorem IsIncludeTree.hasDistinctKeys_of_mem_contents
    {source : Source}
    {config : Config}
    {path : CanonicalPath}
    {tree : IncludeTree}
    {content : Value}
    (hTree : IsIncludeTree source config path tree)
    (hMem : content ∈ tree.contents config) :
    content.hasDistinctKeys = true := by
  rcases List.mem_map.mp hMem with ⟨document, hFrom, rfl⟩
  rcases hTree.exists_of_mem_postorder hFrom with
    ⟨found, hDocument⟩
  rcases document?_eq_some_iff.mp hDocument with
    ⟨text, _hText, hParse⟩
  exact
    hasDistinctKeys_of_split
      (hasDistinctKeys_of_parseText hParse)

end Transclusion

------------------------------------------------------------
-- Flat Merges
------------------------------------------------------------

namespace Transclusion

/-
  Documents that come to a value if their contents, taken
  from those of many documents, are merged one by one.
-/
structure Flattens
    (config : Config)
    (contents : List Value)
    (documents : List Value)
    (value : Value) : Prop where
  subset :
    (documents.map fun document =>
        (config.split document).content) ⊆
      contents
  merged :
    mergeAll config.merge
        (documents.map fun document =>
          (config.split document).content) =
      .ok value

/- Regroupable documents still do so when merged in groups. -/
theorem Flattens.append
    {config : Config}
    {contents before after : List Value}
    {first second merged : Value}
    (hGroup : Regroupable contents)
    (hFirst : Flattens config contents before first)
    (hSecond : Flattens config contents after second)
    (hOk :
      merge config.merge first second =
        .ok merged) :
    Flattens config contents (before ++ after) merged where
  subset := by
    rw [List.map_append]
    exact List.append_subset.mpr ⟨hFirst.subset, hSecond.subset⟩
  merged := by
    have hBefore := hFirst.merged
    have hMore :=
      hGroup.cons_empty.cons_foldlM List.mem_cons_self
        (List.subset_cons_of_subset _ hFirst.subset) hBefore
    rw [mergeAll] at hBefore ⊢
    rw [List.map_append, List.foldlM_append, hBefore]
    refine
      (hMore.foldlM_merge List.mem_cons_self ?_).mpr
        ⟨second, hSecond.merged, hOk⟩
    exact
      List.subset_cons_of_subset _
        (List.subset_cons_of_subset _ hSecond.subset)

/- A tree comes to the flat merge of its contents. -/
theorem IncludeTree.Assembles.mergeAll_contents
    {config : Config}
    {tree : IncludeTree}
    {whole : Resolution}
    (hGroup : Regroupable (tree.contents config))
    (hAssembles : tree.Assembles config whole) :
    mergeAll config.merge (tree.contents config) =
      .ok whole.document := by
  have hWhole :
      Flattens config (tree.contents config) tree.postorder
        whole.document := by
    refine hAssembles.fold ?empty ?merge ?content
    case empty => exact ⟨List.nil_subset _, rfl⟩
    case merge =>
      intro before after first second merged hFirst hSecond
        hOk
      exact hFirst.append hGroup hSecond hOk
    case content =>
      intro document hMem
      have hContent :
          (config.split document).content ∈
            tree.contents config :=
        List.mem_map_of_mem hMem
      constructor
      · exact
          List.cons_subset.mpr
            ⟨hContent, List.nil_subset _⟩
      · exact
          foldlM_merge_cons_eq_ok_iff.mpr
            ⟨_, merge_empty_left (hGroup.object _ hContent),
              rfl⟩
  exact hWhole.merged

end Transclusion

------------------------------------------------------------
-- Resolvers
------------------------------------------------------------

namespace Transclusion

/- The contents of a tree, without those that are empty. -/
def IncludeTree.pieces
    (config : Config)
    (tree : IncludeTree) : List Value :=
  (tree.contents config).filter fun content =>
    content ≠ .empty

/- The pieces of a tree come to the same as its contents. -/
theorem IncludeTree.mergeAll_pieces
    {config : Config}
    {tree : IncludeTree}
    (options : MergeOptions)
    (hObjects :
      ∀ content ∈ tree.contents config,
        content.kind = .object) :
    mergeAll options (tree.pieces config) =
      mergeAll options (tree.contents config) :=
  foldlM_merge_filter rfl hObjects

/- With objects for its pieces, a tree has objects only. -/
theorem IncludeTree.regroupable_contents
    {config : Config}
    {tree : IncludeTree}
    (hGroup : Regroupable (tree.pieces config)) :
    Regroupable (tree.contents config) := by
  refine hGroup.cons_empty.mono ?_
  intro content hMem
  by_cases hEmpty : content = .empty
  · rw [hEmpty]
    exact List.mem_cons_self
  · refine
      List.mem_cons_of_mem _
        (List.mem_filter.mpr ⟨hMem, ?_⟩)
    simpa using hEmpty

namespace Resolver

/- What is resolved is the flat merge of a tree's contents. -/
theorem mergeAll_contents_of_regroupable
    {resolver : Resolver}
    {path : String}
    {root : CanonicalPath}
    {tree : IncludeTree}
    {value : Value}
    (hRoot : resolver.canonicalize path = .ok root)
    (hTree :
      IsIncludeTree resolver.source resolver.config root
        tree)
    (hOk : resolver.resolve path = .ok value)
    (hGroup :
      Regroupable (tree.contents resolver.config)) :
    mergeAll resolver.config.merge
        (tree.contents resolver.config) =
      .ok value := by
  rcases hTree.exists_document with ⟨document, hDocument⟩
  rcases exists_includeTree_of_resolve hRoot hDocument hOk
    with ⟨tree', whole, hTree', hAssembles, rfl⟩
  rw [hTree.unique hTree'] at hGroup ⊢
  exact hAssembles.mergeAll_contents hGroup

/-
  Without a policy for errors, a document of a store that
  has an include tree resolves.
-/
theorem exists_resolve_of_isIncludeTree
    {store : Store}
    {directory : Except Fault String}
    {config : Config}
    {path : String}
    {root : CanonicalPath}
    {tree : IncludeTree}
    (hRoot :
      (store.resolverFrom directory config).canonicalize
          path =
        .ok root)
    (hPolicy : config.merge.keyPolicy ≠ .error)
    (hTree : IsIncludeTree store.load config root tree) :
    ∃ value,
      (store.resolverFrom directory config).resolve path =
        .ok value := by
  have hRun :
      ∃ value,
        ((store.resolverFrom directory config).run
            root).result =
          .ok value :=
    Store.exists_run_of_missing_or_isSound hPolicy
      (.inr hTree.isSound)
  rcases hRun with ⟨value, hOk⟩
  refine ⟨value, ?_⟩
  rw [resolve_eq hRoot, mapError_eq_ok_iff]
  exact hOk

/-
  Where the contents of the documents of a root that is
  found are objects and compatible in pairs, the root
  resolves to their merge in post-order.  Without a policy
  for errors, so does each document of a store that only
  groups the same pieces in another way.
-/
theorem mergeAll_contents_of_resolve
    (resolver : Resolver)
    (path : String)
    {root : CanonicalPath}
    {document value : Value}
    (hRoot : resolver.canonicalize path = .ok root)
    (hDocument :
      document? (resolver.source root) = some document)
    (hOk : resolver.resolve path = .ok value) :
    ∃ tree,
      IsIncludeTree resolver.source resolver.config root
          tree ∧
        ((∀ content ∈ tree.contents resolver.config,
            content.kind = .object) →
          ((tree.contents resolver.config).Pairwise
              fun a b => a.compatible b = true) →
            mergeAll resolver.config.merge
                (tree.contents resolver.config) =
                .ok value ∧
              (resolver.config.merge.keyPolicy ≠ .error →
                ∀ (store : Store) directory
                  (config : Config) (path' : String) root'
                  tree',
                  config.merge = resolver.config.merge →
                    (store.resolverFrom directory
                          config).canonicalize path' =
                        .ok root' →
                      IsIncludeTree store.load config root'
                          tree' →
                        tree'.pieces config =
                            tree.pieces resolver.config →
                          (store.resolverFrom directory
                                config).resolve path' =
                            .ok value)) := by
  rcases exists_includeTree_of_resolve hRoot hDocument hOk
    with ⟨tree, _whole, hTree, _hAssembles, _hValue⟩
  refine ⟨tree, hTree, fun hObjects hPairwise => ?_⟩
  have hGroup :
      Regroupable (tree.contents resolver.config) :=
    .of_pairwise hObjects
      (fun _ => hTree.hasDistinctKeys_of_mem_contents)
      hPairwise
  have hFlat :=
    mergeAll_contents_of_regroupable hRoot hTree hOk hGroup
  refine ⟨hFlat, ?_⟩
  intro hPolicy store directory config path' root' tree'
    hOptions hRoot' hTree' hPieces
  rw [← hOptions] at hPolicy
  rcases exists_resolve_of_isIncludeTree hRoot' hPolicy
      hTree' with
    ⟨value', hOk'⟩
  have hGroup' : Regroupable (tree'.contents config) := by
    refine IncludeTree.regroupable_contents ?_
    rw [hPieces]
    exact hGroup.mono (List.filter_subset_self _)
  have hFlat' :=
    mergeAll_contents_of_regroupable hRoot' hTree' hOk'
      hGroup'
  have hSame :
      (Except.ok value' : Except MergeConflict Value) =
        .ok value := by
    calc
      Except.ok value' =
          mergeAll config.merge (tree'.contents config) :=
        hFlat'.symm
      _ = mergeAll resolver.config.merge
            (tree'.pieces config) := by
        rw [hOptions,
          IncludeTree.mergeAll_pieces _ hGroup'.object]
      _ = mergeAll resolver.config.merge
            (tree.contents resolver.config) := by
        rw [hPieces,
          IncludeTree.mergeAll_pieces _ hGroup.object]
      _ = .ok value := hFlat
  rw [hOk', Except.ok.inj hSame]

end Resolver

namespace Store

/-
  A document that includes two others through a third one
  without content, and a document that includes them itself.
-/
def grouping : Store :=
  ofList
    [("/conf/main.yaml",
        "includes: [group.yaml, c.yaml]\nname: main\n"),
      ("/conf/flat.yaml",
        "includes: [a.yaml, b.yaml, c.yaml]\nname: main\n"),
      ("/conf/group.yaml", "includes: [a.yaml, b.yaml]\n"),
      ("/conf/a.yaml", "name: a\nlist: [a]\n"),
      ("/conf/b.yaml", "list: [b]\nin: \x7bx: b, y: b\x7d\n"),
      ("/conf/c.yaml", "list: [c]\nin: \x7bx: c\x7d\n")]

/- The path of a document of this store. -/
def groupingPath
    (name : String) : CanonicalPath :=
  .ofText ("/conf/" ++ name)

/- A document that includes others and has a name. -/
def groupingDocument
    (references : List String) : Value :=
  .object
    [("includes", .array (references.map .string)),
      ("name", .string "main")]

/- The include trees of the documents that include none. -/
def groupingLeaves : List IncludeTree :=
  [.node (groupingPath "a.yaml")
      (.object
        [("name", .string "a"),
          ("list", .array [.string "a"])]) [],
    .node (groupingPath "b.yaml")
      (.object
        [("list", .array [.string "b"]),
          ("in",
            .object
              [("x", .string "b"), ("y", .string "b")])])
      [],
    .node (groupingPath "c.yaml")
      (.object
        [("list", .array [.string "c"]),
          ("in", .object [("x", .string "c")])]) []]

/- The include tree of the document that has a group. -/
def groupingTree : IncludeTree :=
  .node (groupingPath "main.yaml")
    (groupingDocument ["group.yaml", "c.yaml"])
    (.node (groupingPath "group.yaml")
        (.object
          [("includes",
              .array
                [.string "a.yaml", .string "b.yaml"])])
        (groupingLeaves.take 2) ::
      groupingLeaves.drop 2)

/- The include tree of the document that has no group. -/
def groupingFlatTree : IncludeTree :=
  .node (groupingPath "flat.yaml")
    (groupingDocument ["a.yaml", "b.yaml", "c.yaml"])
    groupingLeaves

/- What both documents resolve to. -/
def groupingValue : Value :=
  .object
    [("name", .string "main"),
      ("list",
        .array [.string "a", .string "b", .string "c"]),
      ("in",
        .object [("x", .string "c"), ("y", .string "b")])]

/- Documents that include none are trees of their own. -/
theorem isIncludeTree_groupingLeaves :
    List.Forall₂ (IsIncludeTree grouping.load {})
      [groupingPath "a.yaml", groupingPath "b.yaml",
        groupingPath "c.yaml"]
      groupingLeaves := by
  refine
    .cons (.node ?_ .nil)
      (.cons (.node ?_ .nil) (.cons (.node ?_ .nil) .nil))
  all_goals decide +kernel

/- The document that has a group has its include tree. -/
theorem isIncludeTree_groupingTree :
    IsIncludeTree grouping.load {}
      (groupingPath "main.yaml") groupingTree := by
  have hLeaves := isIncludeTree_groupingLeaves
  have hGroup := List.forall₂_take 2 hLeaves
  have hOthers := List.forall₂_drop 2 hLeaves
  exact
    .node (by decide +kernel)
      (.cons (.node (by decide +kernel) hGroup) hOthers)

/- The document without a group has its include tree. -/
theorem isIncludeTree_groupingFlatTree :
    IsIncludeTree grouping.load {}
      (groupingPath "flat.yaml") groupingFlatTree :=
  .node (by decide +kernel) isIncludeTree_groupingLeaves

/-
  The document that has a group resolves to the flat merge
  of its contents, and so does the document that has none.
-/
theorem mergeAll_contents_grouping :
    let resolver := grouping.resolverFrom (.ok "/") {}
    resolver.canonicalize "/conf/main.yaml" =
        .ok (groupingPath "main.yaml") ∧
      document?
            (resolver.source (groupingPath "main.yaml")) =
          some
            (groupingDocument ["group.yaml", "c.yaml"]) ∧
        resolver.resolve "/conf/main.yaml" =
            .ok groupingValue ∧
          mergeAll {} (groupingTree.contents {}) =
              .ok groupingValue ∧
            resolver.resolve "/conf/flat.yaml" =
              .ok groupingValue := by
  intro resolver
  have hRoot :
      resolver.canonicalize "/conf/main.yaml" =
        .ok (groupingPath "main.yaml") := by
    decide +kernel
  have hDocument :
      document?
          (resolver.source (groupingPath "main.yaml")) =
        some
          (groupingDocument ["group.yaml", "c.yaml"]) := by
    decide +kernel
  have hOk :
      resolver.resolve "/conf/main.yaml" =
        .ok groupingValue := by
    decide +kernel
  rcases Resolver.mergeAll_contents_of_resolve resolver
      "/conf/main.yaml" hRoot hDocument hOk with
    ⟨tree, hTree, hFlat⟩
  rw [← isIncludeTree_groupingTree.unique hTree] at hFlat
  rcases hFlat (by decide +kernel) (by decide +kernel) with
    ⟨hMerge, hRegroup⟩
  refine ⟨hRoot, hDocument, hOk, hMerge, ?_⟩
  exact
    hRegroup (by decide) grouping (.ok "/") {}
      "/conf/flat.yaml" (groupingPath "flat.yaml")
      groupingFlatTree rfl (by decide +kernel)
      isIncludeTree_groupingFlatTree (by decide +kernel)

end Store

end Transclusion
