import Transclusion.Proofs.Merge.Sequence
import Transclusion.Proofs.Resolve.Composition
import Transclusion.Proofs.Resolve.Graph

/-
  Documents with the trees of what they include.

  Key definitions include:
    * `Transclusion.IncludeTree`
    * `Transclusion.IncludeTree.postorder`
    * `Transclusion.IsIncludeTree`
    * `Transclusion.IncludeTree.Assembles`

  Key theorems include:
    * `Transclusion.IsIncludeTree.unique`
    * `Transclusion.IsIncludeTree.isSound`
    * `Transclusion.exists_includeTree`
    * `Transclusion.IncludeTree.Assembles.induction`
    * `Transclusion.IncludeTree.Assembles.fold`
    * `Transclusion.Resolver.report_cases`
    * `Transclusion.Resolver.exists_includeTree_of_resolve`

  A document that resolves has an include tree, in which a
  document stands once for each time that it is included.
  A document that has one leads neither to itself nor to
  anything that is missing.
  What holds of nothing and of each document by itself, and
  is kept by merges, holds of the whole tree.
-/

------------------------------------------------------------
-- Trees
------------------------------------------------------------

namespace Transclusion

/- A document with the trees of its includes, in order. -/
inductive IncludeTree where
  | node
      (path : CanonicalPath)
      (document : Value)
      (includes : List IncludeTree)

namespace IncludeTree

/- What a tree inherits from its includes holds of every tree. -/
@[elab_as_elim]
theorem induction
    {motive : IncludeTree → Prop}
    (node :
      ∀ path document includes,
        (∀ tree ∈ includes, motive tree) →
          motive (.node path document includes))
    (tree : IncludeTree) : motive tree := by
  refine
    @IncludeTree.rec motive
      (fun includes => ∀ tree ∈ includes, motive tree)
      node ?nil ?cons tree
  case nil => simp
  case cons =>
    intro tree rest hTree hRest
    exact List.forall_mem_cons.mpr ⟨hTree, hRest⟩

mutual

/- The documents of a tree, each one after its includes. -/
def postorder : IncludeTree → List Value
  | .node _ document includes =>
      postorderAll includes ++ [document]

/- The documents of trees, one tree after another. -/
def postorderAll : List IncludeTree → List Value
  | [] => []
  | tree :: rest => postorder tree ++ postorderAll rest

end

/-
  What the documents of a tree hold beside their directives,
  in the same order.
-/
def contents
    (config : Config)
    (tree : IncludeTree) : List Value :=
  tree.postorder.map fun document =>
    (config.split document).content

end IncludeTree

/-
  The include tree of a path: the document there with the
  include trees of what its references name.
-/
inductive IsIncludeTree
    (source : Source)
    (config : Config) :
    CanonicalPath → IncludeTree → Prop where
  | node
      {path : CanonicalPath}
      {document : Value}
      {includes : List IncludeTree}
      (hDocument :
        document? (source path) = some document)
      (hIncludes :
        List.Forall₂ (IsIncludeTree source config)
          ((config.split document).references.map
            (resolveInclude path))
          includes) :
      IsIncludeTree source config path
        (.node path document includes)

/- A path has no more than one include tree. -/
theorem IsIncludeTree.unique
    {source : Source}
    {config : Config}
    {path : CanonicalPath}
    {tree tree' : IncludeTree}
    (hTree : IsIncludeTree source config path tree)
    (hTree' : IsIncludeTree source config path tree') :
    tree = tree' := by
  induction tree using IncludeTree.induction generalizing
      path tree' with
  | node path document includes ih =>
      cases hTree with
      | node hDocument hIncludes =>
          cases hTree' with
          | @node _ document' includes' hDocument'
              hIncludes' =>
              have hSame :=
                hDocument.symm.trans hDocument'
              cases hSame
              congr 1
              generalize
                (config.split document).references.map
                    (resolveInclude path) = paths
                at hIncludes hIncludes'
              clear hDocument hDocument'
              induction hIncludes generalizing includes' with
              | nil =>
                  cases hIncludes'
                  rfl
              | cons hFirst _hRest ihRest =>
                  cases hIncludes' with
                  | cons hFirst' hRest' =>
                      rw [List.forall_mem_cons] at ih
                      rw [ih.1 hFirst hFirst',
                        ihRest ih.2 hRest']

end Transclusion

------------------------------------------------------------
-- Trees in the Graph of Includes
------------------------------------------------------------

namespace Transclusion

open Relation

namespace IncludeTree

/- The documents of trees are those of each of them. -/
theorem postorderAll_eq
    (trees : List IncludeTree) :
    postorderAll trees = (trees.map postorder).flatten := by
  induction trees with
  | nil => rfl
  | cons tree rest ih =>
      rw [postorderAll, ih, List.map_cons,
        List.flatten_cons]

/- A tree has one document more than the trees below it. -/
theorem length_postorder_lt
    {path : CanonicalPath}
    {document : Value}
    {includes : List IncludeTree}
    {tree : IncludeTree}
    (hMem : tree ∈ includes) :
    tree.postorder.length <
      (node path document includes).postorder.length := by
  have hSublist :
      tree.postorder.Sublist (postorderAll includes) := by
    rw [postorderAll_eq]
    exact
      List.sublist_flatten_of_mem
        (List.mem_map_of_mem hMem)
  have hLength := hSublist.length_le
  rw [postorder, List.length_append,
    List.length_singleton]
  omega

end IncludeTree

namespace IsIncludeTree

variable {source : Source}
variable {config : Config}
variable {path included : CanonicalPath}
variable {tree : IncludeTree}

/- A path with an include tree has a document. -/
theorem exists_document
    (hTree : IsIncludeTree source config path tree) :
    ∃ document,
      document? (source path) = some document := by
  cases hTree with
  | node hDocument _hIncludes => exact ⟨_, hDocument⟩

/- What a document includes has a smaller tree. -/
theorem exists_of_includes
    (hTree : IsIncludeTree source config path tree)
    (hIncluded : Includes source config path included) :
    ∃ tree',
      IsIncludeTree source config included tree' ∧
        tree'.postorder.length < tree.postorder.length := by
  rcases hIncluded with
    ⟨document, hDocument, reference, hReference, rfl⟩
  cases hTree with
  | @node _ document' includes hDocument' hIncludes =>
      have hSame := hDocument.symm.trans hDocument'
      cases hSame
      have hMem :
          resolveInclude path reference ∈
            (config.split document).references.map
              (resolveInclude path) :=
        List.mem_map_of_mem hReference
      rcases exists_of_mem_of_forall₂ hIncludes hMem with
        ⟨tree', hBelow, hTree'⟩
      exact
        ⟨tree', hTree',
          IncludeTree.length_postorder_lt hBelow⟩

/- What a document leads to has a tree that is no larger. -/
theorem exists_of_reflTransGen
    (hTree : IsIncludeTree source config path tree)
    (hLeads :
      ReflTransGen (Includes source config) path
        included) :
    ∃ tree',
      IsIncludeTree source config included tree' ∧
        tree'.postorder.length ≤ tree.postorder.length := by
  induction hLeads with
  | refl => exact ⟨tree, hTree, Nat.le_refl _⟩
  | tail _hLeads hIncludes ih =>
      rcases ih with ⟨middle, hMiddle, hNoLarger⟩
      rcases hMiddle.exists_of_includes hIncludes with
        ⟨last, hLast, hSmaller⟩
      exact ⟨last, hLast, by omega⟩

/-
  A document with an include tree is sound: on a cycle, the
  tree would be smaller than itself.
-/
theorem isSound
    (hTree : IsIncludeTree source config path tree) :
    IsSound source config path := by
  constructor
  · intro other hLeads
    rcases hTree.exists_of_reflTransGen hLeads with
      ⟨tree', hOther, _hNoLarger⟩
    exact hOther.exists_document
  · intro other hLeads hCycle
    rcases hTree.exists_of_reflTransGen hLeads with
      ⟨tree', hOther, _hNoLarger⟩
    rcases TransGen.head'_iff.mp hCycle with
      ⟨next, hIncludes, hBack⟩
    rcases hOther.exists_of_includes hIncludes with
      ⟨below, hNext, hSmaller⟩
    rcases hNext.exists_of_reflTransGen hBack with
      ⟨again, hAgain, hNoLarger⟩
    rw [hAgain.unique hOther] at hNoLarger
    omega

end IsIncludeTree

end Transclusion

------------------------------------------------------------
-- Resolutions of Trees
------------------------------------------------------------

namespace Transclusion

/-
  The resolution of a tree is assembled from those of its
  includes.
-/
inductive IncludeTree.Assembles
    (config : Config) :
    IncludeTree → Resolution → Prop where
  | node
      {path : CanonicalPath}
      {document : Value}
      {includes : List IncludeTree}
      {included : List Resolution}
      {whole : Resolution}
      (hIncluded :
        List.Forall₂ (IncludeTree.Assembles config)
          includes included)
      (hWhole :
        Assembled config path document included whole) :
      IncludeTree.Assembles config
        (.node path document includes) whole

/-
  What a document inherits from the resolutions of its
  includes holds of every tree and its resolution.
-/
theorem IncludeTree.Assembles.induction
    {config : Config}
    {motive : IncludeTree → Resolution → Prop}
    (node :
      ∀ {path document includes included whole},
        List.Forall₂ motive includes included →
          Assembled config path document included whole →
            motive (.node path document includes) whole)
    {tree : IncludeTree}
    {whole : Resolution}
    (hAssembles : tree.Assembles config whole) :
    motive tree whole := by
  induction tree using IncludeTree.induction generalizing
      whole with
  | node path document includes ih =>
      cases hAssembles with
      | @node _ _ _ included _ hIncluded hWhole =>
          refine
            node (forall₂_of_forall_mem hIncluded ?_) hWhole
          intro tree hTree whole hBelow
          exact ih tree hTree hBelow

/- Related lists split at what lies between their elements. -/
theorem exists_forall₂_between
    {α β γ : Type}
    {R : α → γ → Prop}
    {S : α → β → Prop}
    {T : β → γ → Prop}
    {as : List α}
    {cs : List γ}
    (hRelated : List.Forall₂ R as cs)
    (hBetween : ∀ a c, R a c → ∃ b, S a b ∧ T b c) :
    ∃ bs, List.Forall₂ S as bs ∧ List.Forall₂ T bs cs := by
  induction hRelated with
  | nil => exact ⟨[], .nil, .nil⟩
  | cons hFirst _hRest ih =>
      rcases hBetween _ _ hFirst with ⟨b, hLeft, hRight⟩
      rcases ih with ⟨bs, hLefts, hRights⟩
      exact ⟨b :: bs, .cons hLeft hLefts, .cons hRight hRights⟩

/- A document that is found and resolves has an include tree. -/
theorem exists_includeTree
    {source : Source}
    {config : Config}
    {bound : Nat}
    {ancestors : List CanonicalPath}
    {path : CanonicalPath}
    {isRoot : Bool}
    {document : Value}
    {whole : Resolution}
    (hDocument : document? (source path) = some document)
    (hOk :
      (resolveDocument source config bound ancestors path
          isRoot).resolution =
        .ok whole) :
    ∃ tree, IsIncludeTree source config path tree ∧
      tree.Assembles config whole := by
  induction bound generalizing
      ancestors path isRoot document whole with
  | zero => cases hOk
  | succ bound ih =>
      have hNew : path ∉ ancestors := by
        have hResult := (Run.resolution_eq_ok_iff.mp hOk).1
        exact (resolveDocument_result_eq_ok_cases hResult).1
      rcases (resolveDocument_resolution_eq_ok_iff hNew
          hDocument).mp hOk with
        ⟨included, hIncluded, hWhole⟩
      have hTrees :
          ∃ trees,
            List.Forall₂
                (fun reference tree =>
                  IsIncludeTree source config
                    (resolveInclude path reference) tree)
                (config.split document).references trees ∧
              List.Forall₂ (IncludeTree.Assembles config)
                trees included := by
        refine exists_forall₂_between hIncluded ?_
        intro reference resolution hResolved
        have hResult :=
          (Run.resolution_eq_ok_iff.mp hResolved).1
        rcases (resolveDocument_result_eq_ok_cases
            hResult).2 with
          ⟨hRoot, _hLenient, _hMissing⟩ | ⟨found, hFound⟩
        · cases hRoot
        · exact ih hFound hResolved
      rcases hTrees with ⟨trees, hAre, hAssemble⟩
      refine
        ⟨.node path document trees,
          .node hDocument ?_, .node hAssemble hWhole⟩
      exact List.forall₂_map_left_iff.mpr hAre

namespace IncludeTree

/-
  A relation between lists of documents and what they come
  to holds of a tree and its resolution if it holds of no
  documents, of each one by itself, and is kept by merges.
-/
theorem Assembles.fold
    {config : Config}
    {P : List Value → Value → Prop}
    (hEmpty : P [] .empty)
    (hMerge :
      ∀ before after first second merged,
        P before first → P after second →
          merge config.merge first second = .ok merged →
            P (before ++ after) merged)
    {tree : IncludeTree}
    {whole : Resolution}
    (hContent :
      ∀ document ∈ tree.postorder,
        P [document] (config.split document).content)
    (hAssembles : tree.Assembles config whole) :
    P tree.postorder whole.document := by
  refine
    hAssembles.induction
      (motive := fun tree whole =>
        (∀ document ∈ tree.postorder,
            P [document] (config.split document).content) →
          P tree.postorder whole.document)
      ?_ hContent
  clear hContent hAssembles
  intro path document includes included whole hIncluded
    hWhole hContent
  rw [postorder] at hContent ⊢
  rw [List.forall_mem_append] at hContent
  have hIncludes :
      List.Forall₂ P (includes.map postorder)
        (included.map (·.document)) := by
    rw [List.forall₂_map_left_iff,
      List.forall₂_map_right_iff]
    have hBelow := hContent.1
    rw [postorderAll_eq] at hBelow
    clear hWhole hContent
    induction hIncluded with
    | nil => exact .nil
    | cons hFirst _hRest ih =>
        rw [List.map_cons, List.flatten_cons,
          List.forall_mem_append] at hBelow
        exact .cons (hFirst hBelow.1) (ih hBelow.2)
  rcases hWhole.merged with ⟨inherited, hInherited, hMerged⟩
  have hAbove :=
    foldlM_merge_fold hMerge hIncludes hEmpty hInherited
  rw [postorderAll_eq]
  exact
    hMerge _ _ _ _ _ hAbove
      (hContent.2 document List.mem_cons_self) hMerged

end IncludeTree

end Transclusion

------------------------------------------------------------
-- Resolvers
------------------------------------------------------------

namespace Transclusion

/- What is resolved is the document of a resolution. -/
theorem Resolver.exists_resolution_of_resolve
    {resolver : Resolver}
    {path : String}
    {root : CanonicalPath}
    {value : Value}
    (hRoot : resolver.canonicalize path = .ok root)
    (hOk : resolver.resolve path = .ok value) :
    ∃ whole, (resolver.run root).resolution = .ok whole ∧
      whole.document = value := by
  rw [resolve_eq hRoot, mapError_eq_ok_iff] at hOk
  exact Run.exists_resolution hOk

/- What is resolved is the document of a report. -/
theorem Resolver.exists_report_of_resolve
    {resolver : Resolver}
    {path : String}
    {value : Value}
    (hOk : resolver.resolve path = .ok value) :
    ∃ whole, resolver.report path = .ok whole ∧
      whole.document = value :=
  map_eq_ok_iff.mp hOk

/- A report is of a missing root or of an include tree. -/
theorem Resolver.report_cases
    {resolver : Resolver}
    {path : String}
    {root : CanonicalPath}
    {whole : Resolution}
    (hRoot : resolver.canonicalize path = .ok root)
    (hReport : resolver.report path = .ok whole) :
    (∃ fault, resolver.source root = .error fault ∧
        whole = ⟨.empty, [], [.missingRoot root fault]⟩) ∨
      ∃ tree,
        IsIncludeTree resolver.source resolver.config root
            tree ∧
          tree.Assembles resolver.config whole := by
  rw [report_eq hRoot, mapError_eq_ok_iff] at hReport
  have hResult := (Run.resolution_eq_ok_iff.mp hReport).1
  rcases (resolveDocument_result_eq_ok_cases hResult).2 with
    ⟨_hIsRoot, _hLenient, fault, hMissing⟩ |
    ⟨document, hDocument⟩
  · refine .inl ⟨fault, hMissing, ?_⟩
    obtain ⟨source, directory, config, bound⟩ := resolver
    cases bound with
    | zero => cases hResult
    | succ bound =>
        rw [run, resolveDocument_of_missing List.not_mem_nil
          hMissing] at hReport
        split at hReport
        · exact (Except.ok.inj hReport).symm
        · cases hReport
  · exact .inr (exists_includeTree hDocument hReport)

/- What is resolved from a root that is found has a tree. -/
theorem Resolver.exists_includeTree_of_resolve
    {resolver : Resolver}
    {path : String}
    {root : CanonicalPath}
    {document value : Value}
    (hRoot : resolver.canonicalize path = .ok root)
    (hDocument :
      document? (resolver.source root) = some document)
    (hOk : resolver.resolve path = .ok value) :
    ∃ tree whole,
      IsIncludeTree resolver.source resolver.config root
          tree ∧
        tree.Assembles resolver.config whole ∧
          whole.document = value := by
  rcases exists_resolution_of_resolve hRoot hOk with
    ⟨whole, hWhole, hValue⟩
  rcases exists_includeTree hDocument hWhole with
    ⟨tree, hTree, hAssembles⟩
  exact ⟨tree, whole, hTree, hAssembles, hValue⟩

end Transclusion
