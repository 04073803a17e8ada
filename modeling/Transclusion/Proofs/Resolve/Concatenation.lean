import Transclusion.Proofs.Resolve.IncludeTree

/-
  Arrays put together over a whole include tree.

  Key definitions include:
    * `Transclusion.Value.itemsAt`
    * `Transclusion.concatenation`
    * `Transclusion.Concatenates`
    * `Transclusion.IsPostorder`

  Key theorems include:
    * `Transclusion.mergeAt_concatenation`
    * `Transclusion.IncludeTree.Assembles.concatenates`
    * `Transclusion.Resolver.concatenation_of_resolve`

  Where arrays are appended, merging documents puts together
  what they have under one key, and this does not depend on
  how the merges are grouped or on what is under other keys.
-/

------------------------------------------------------------
-- Arrays under One Key
------------------------------------------------------------

namespace Transclusion

/- The items that a value has under a key. -/
def Value.itemsAt
    (value : Value)
    (key : String) : List Value :=
  match value.field? key with
  | some (.array items) => items
  | _ => []

/-
  The items that documents have under a key, one document
  after another, unless none of them has the key.
-/
def concatenation
    (key : String)
    (documents : List Value) : Option Value :=
  if documents.any fun document =>
      (document.field? key).isSome then
    some
      (.array
        (documents.flatMap fun document =>
          document.itemsAt key))
  else
    none

variable {options : MergeOptions}
variable {key : String}

/- Without the key, documents have no items there. -/
theorem flatMap_itemsAt_of_not_any
    {documents : List Value}
    (hNone :
      (documents.any fun document =>
          (document.field? key).isSome) =
        false) :
    (documents.flatMap fun document =>
        document.itemsAt key) =
      [] := by
  rw [List.flatMap_eq_nil_iff]
  intro document hMem
  rw [List.any_eq_false] at hNone
  have hAbsent := hNone document hMem
  rw [Option.not_isSome_iff_eq_none] at hAbsent
  rw [Value.itemsAt, hAbsent]

/- There is something if one of the documents has the key. -/
theorem exists_concatenation_iff
    {documents : List Value} :
    (∃ found, concatenation key documents = some found) ↔
      ∃ document ∈ documents, ∃ found,
        document.field? key = some found := by
  rw [concatenation]
  split
  · rename_i hAny
    rw [List.any_eq_true] at hAny
    simpa [Option.isSome_iff_exists] using hAny
  · rename_i hNone
    rw [List.any_eq_true] at hNone
    simpa [Option.isSome_iff_exists] using hNone

/- What there is are the items of all the documents. -/
theorem eq_of_concatenation_eq_some
    {documents : List Value}
    {found : Value}
    (hFound : concatenation key documents = some found) :
    found =
      .array
        (documents.flatMap fun document =>
          document.itemsAt key) := by
  rw [concatenation] at hFound
  split at hFound
  · exact (Option.some.inj hFound).symm
  · cases hFound

/- One document has the items that are its own. -/
theorem concatenation_singleton
    {document : Value}
    (hArray :
      ∀ found, document.field? key = some found →
        found.kind = .array) :
    concatenation key [document] = document.field? key := by
  cases hField : document.field? key with
  | none => simp [concatenation, hField]
  | some found =>
      rcases Value.kind_eq_array_iff.mp
          (hArray found hField) with
        ⟨items, rfl⟩
      simp [concatenation, Value.itemsAt, hField]

/- Appended arrays are those of all the documents. -/
theorem mergeAt_concatenation
    (hAppend : options.arrayPolicy = .appendSecond)
    (before after : List Value) :
    mergeAt options (concatenation key before)
        (concatenation key after) =
      .ok (concatenation key (before ++ after)) := by
  unfold concatenation
  rw [List.any_append, List.flatMap_append]
  cases hBefore :
      before.any fun document =>
        (document.field? key).isSome with
  | false =>
      rw [flatMap_itemsAt_of_not_any hBefore]
      exact mergeAt_none_left _
  | true =>
      cases hAfter :
          after.any fun document =>
            (document.field? key).isSome with
      | false =>
          rw [flatMap_itemsAt_of_not_any hAfter,
            List.append_nil]
          exact mergeAt_none_right _
      | true =>
          refine
            (mergeAt_some_some _ _ _).mpr ⟨_, ?_, rfl⟩
          rw [mergeEntry_arrays, mergeArrays, hAppend]

end Transclusion

------------------------------------------------------------
-- Trees
------------------------------------------------------------

namespace Transclusion

/-
  An object that has under a key what documents have there,
  one after another.
-/
structure Concatenates
    (key : String)
    (documents : List Value)
    (value : Value) : Prop where
  object : value.kind = .object
  field : value.field? key = concatenation key documents

/- Appended arrays stay in the order of the documents. -/
theorem Concatenates.append
    {options : MergeOptions}
    {key : String}
    {before after : List Value}
    {first second merged : Value}
    (hFirst : Concatenates key before first)
    (hSecond : Concatenates key after second)
    (hAppend : options.arrayPolicy = .appendSecond)
    (hOk :
      merge options first second =
        .ok merged) :
    Concatenates key (before ++ after) merged := by
  have hBefore := hFirst.field
  have hAfter := hSecond.field
  rcases exists_fields_of_merge hFirst.object hSecond.object
      hOk with
    ⟨as, bs, fields, rfl, rfl, rfl, hFields⟩
  refine ⟨rfl, ?_⟩
  have hMerged := mergeAt_of_mergeFields hFields key
  rw [Value.field?_object] at hBefore hAfter ⊢
  rw [hBefore, hAfter, mergeAt_concatenation hAppend,
    Except.ok.injEq] at hMerged
  exact hMerged.symm

/- A tree comes to what its documents have under a key. -/
theorem IncludeTree.Assembles.concatenates
    {config : Config}
    {tree : IncludeTree}
    {whole : Resolution}
    {key : String}
    (hAssembles : tree.Assembles config whole)
    (hAppend : config.merge.arrayPolicy = .appendSecond)
    (hKey : key ≠ config.includesKey)
    (hObjects :
      ∀ document ∈ tree.postorder,
        document.kind = .object)
    (hArrays :
      ∀ document ∈ tree.postorder, ∀ found,
        document.field? key = some found →
          found.kind = .array) :
    Concatenates key tree.postorder whole.document := by
  refine hAssembles.fold ?empty ?merge ?content
  case empty => exact ⟨rfl, rfl⟩
  case merge =>
    intro before after first second merged hFirst hSecond
      hOk
    exact hFirst.append hSecond hAppend hOk
  case content =>
    intro document hMem
    constructor
    · rw [Config.kind_content]
      exact hObjects document hMem
    · rw [Config.field?_content hKey,
        concatenation_singleton (hArrays document hMem)]

end Transclusion

------------------------------------------------------------
-- Resolvers
------------------------------------------------------------

namespace Transclusion

/-
  The documents that are loaded from a path on, once for
  each time that they are included and each one after its
  own includes.  There are none if the path itself is
  missing.
-/
inductive IsPostorder
    (source : Source)
    (config : Config)
    (path : CanonicalPath) : List Value → Prop where
  | missing
      {fault : Fault}
      (hMissing : source path = .error fault) :
      IsPostorder source config path []
  | found
      {tree : IncludeTree}
      (hTree : IsIncludeTree source config path tree) :
      IsPostorder source config path tree.postorder

namespace Resolver

/- What is resolved from a root is missing or found. -/
theorem lookup_of_resolve
    {resolver : Resolver}
    {path : String}
    {root : CanonicalPath}
    {value : Value}
    (hRoot : resolver.canonicalize path = .ok root)
    (hOk : resolver.resolve path = .ok value) :
    (∃ fault, resolver.source root = .error fault) ∨
      ∃ document,
        document? (resolver.source root) =
          some document := by
  rw [resolve_eq hRoot, mapError_eq_ok_iff] at hOk
  rcases (resolveDocument_result_eq_ok_cases hOk).2 with
    ⟨_hIsRoot, _hLenient, hMissing⟩ | hFound
  · exact .inl hMissing
  · exact .inr hFound

/- A root that is missing resolves to an empty document. -/
theorem eq_empty_of_resolve
    {resolver : Resolver}
    {path : String}
    {root : CanonicalPath}
    {fault : Fault}
    {value : Value}
    (hRoot : resolver.canonicalize path = .ok root)
    (hMissing : resolver.source root = .error fault)
    (hOk : resolver.resolve path = .ok value) :
    value = .empty := by
  rcases exists_report_of_resolve hOk with
    ⟨whole, hReport, rfl⟩
  rcases report_cases hRoot hReport with
    ⟨_, _, rfl⟩ | ⟨tree, hTree, _hAssembles⟩
  · rfl
  · rcases hTree.exists_document with
      ⟨document, hDocument⟩
    rw [hMissing] at hDocument
    cases hDocument

/-
  Where arrays are appended and every document loaded is an
  object, a key that has arrays only comes to these arrays
  one after another, in post-order.
-/
theorem concatenation_of_resolve
    (resolver : Resolver)
    (path : String)
    {root : CanonicalPath}
    {value : Value}
    (hAppend :
      resolver.config.merge.arrayPolicy = .appendSecond)
    (hRoot : resolver.canonicalize path = .ok root)
    (hOk : resolver.resolve path = .ok value) :
    ∃ documents,
      IsPostorder resolver.source resolver.config root
          documents ∧
        ((∀ document ∈ documents,
            document.kind = .object) →
          ∀ key, key ≠ resolver.config.includesKey →
            (∀ document ∈ documents, ∀ found,
                document.field? key = some found →
                  found.kind = .array) →
              ((∃ found, value.field? key = some found) ↔
                  ∃ document ∈ documents, ∃ found,
                    document.field? key = some found) ∧
                ∀ found, value.field? key = some found →
                  found =
                    .array
                      (documents.flatMap fun document =>
                        document.itemsAt key)) := by
  have hLoaded :
      ∃ documents,
        IsPostorder resolver.source resolver.config root
            documents ∧
          ((∀ document ∈ documents,
              document.kind = .object) →
            ∀ key, key ≠ resolver.config.includesKey →
              (∀ document ∈ documents, ∀ found,
                  document.field? key = some found →
                    found.kind = .array) →
                value.field? key =
                  concatenation key documents) := by
    rcases lookup_of_resolve hRoot hOk with
      ⟨fault, hMissing⟩ | ⟨document, hDocument⟩
    · refine ⟨[], .missing hMissing, ?_⟩
      rw [eq_empty_of_resolve hRoot hMissing hOk]
      intro _hObjects key _hKey _hArrays
      rfl
    · rcases exists_includeTree_of_resolve hRoot hDocument
          hOk with
        ⟨tree, whole, hTree, hAssembles, rfl⟩
      refine ⟨tree.postorder, .found hTree, ?_⟩
      intro hObjects key hKey hArrays
      have hSum :=
        hAssembles.concatenates hAppend hKey hObjects
          hArrays
      exact hSum.field
  rcases hLoaded with ⟨documents, hPostorder, hField⟩
  refine ⟨documents, hPostorder, ?_⟩
  intro hObjects key hKey hArrays
  rw [hField hObjects key hKey hArrays]
  exact
    ⟨exists_concatenation_iff,
      fun _ => eq_of_concatenation_eq_some⟩

end Resolver

namespace Store

/- The document that both includes share. -/
def sharedDocument : Value :=
  .object
    [("includes", .string "common"),
      ("list", .array [.string "c"])]

/- Its include tree. -/
def sharedTree : IncludeTree :=
  .node (.ofText "/conf/common.yaml") sharedDocument []

/- The include tree of the document that includes both. -/
def sharingTree : IncludeTree :=
  .node sharingRoot sharingDocument
    [.node (.ofText "/conf/x.yaml")
        (.object
          [("includes", .array [.string "common.yaml"]),
            ("list", .array [.string "x"])])
        [sharedTree],
      .node (.ofText "/conf/sub/y.yaml")
        (.object
          [("includes",
              .array [.string "../common.yaml"]),
            ("list", .array [.string "y"])])
        [sharedTree]]

/- The document that includes both has its include tree. -/
theorem isIncludeTree_sharingTree :
    IsIncludeTree sharing.load {} sharingRoot
      sharingTree := by
  have hShared :
      IsIncludeTree sharing.load {}
        (.ofText "/conf/common.yaml") sharedTree :=
    .node (by decide +kernel) .nil
  refine .node ?_ (.cons ?_ (.cons ?_ .nil))
  · decide +kernel
  · exact .node (by decide +kernel) (.cons hShared .nil)
  · exact .node (by decide +kernel) (.cons hShared .nil)

/-
  What is shared stands before each document that includes
  it, and a key of no document stays away.
-/
theorem concatenation_sharing :
    let resolver := sharing.resolverFrom (.ok "/") {}
    resolver.config.merge.arrayPolicy = .appendSecond ∧
      resolver.canonicalize "/conf/main.yaml" =
          .ok sharingRoot ∧
        ∃ value,
          resolver.resolve "/conf/main.yaml" = .ok value ∧
            value.field? "list" =
                some
                  (.array
                    [.string "c", .string "x", .string "c",
                      .string "y"]) ∧
              value.field? "other" = none := by
  intro resolver
  have hRoot :
      resolver.canonicalize "/conf/main.yaml" =
        .ok sharingRoot := by
    decide +kernel
  have hOk :
      ∃ value,
        resolver.resolve "/conf/main.yaml" = .ok value := by
    refine
      ⟨.object
        [("list",
            .array
              [.string "c", .string "x", .string "c",
                .string "y"]),
          ("name", .string "main")], ?_⟩
    decide +kernel
  rcases hOk with ⟨value, hOk⟩
  rcases Resolver.concatenation_of_resolve resolver
      "/conf/main.yaml" rfl hRoot hOk with
    ⟨documents, hPostorder, hLaw⟩
  have hDocuments : documents = sharingTree.postorder := by
    cases hPostorder with
    | missing hMissing =>
        have hFound :
            document? (resolver.source sharingRoot) =
              some sharingDocument := by
          decide +kernel
        rw [hMissing] at hFound
        cases hFound
    | found hTree =>
        rw [isIncludeTree_sharingTree.unique hTree]
  subst hDocuments
  have hKeys := hLaw (by decide +kernel)
  have hArrays :
      ∀ document ∈ sharingTree.postorder,
        ∀ found ∈ document.field? "list",
          found.kind = .array := by
    decide +kernel
  have hAbsent :
      ∀ document ∈ sharingTree.postorder,
        document.field? "other" = none := by
    decide +kernel
  refine ⟨rfl, hRoot, value, hOk, ?list, ?other⟩
  case list =>
    rcases hKeys "list" (by decide) hArrays with
      ⟨hHas, hItems⟩
    rcases hHas.mpr
        ⟨sharedDocument, by decide +kernel,
          .array [.string "c"], rfl⟩ with
      ⟨found, hFound⟩
    rw [hFound, hItems found hFound]
    decide +kernel
  case other =>
    have hNone :
        ¬ ∃ document ∈ sharingTree.postorder,
          ∃ found, document.field? "other" = some found := by
      rintro ⟨document, hMem, found, hFound⟩
      rw [hAbsent document hMem] at hFound
      cases hFound
    have hOther :=
      hKeys "other" (by decide)
        fun document hMem found hFound =>
          absurd ⟨document, hMem, found, hFound⟩ hNone
    rw [Option.eq_none_iff_forall_ne_some]
    intro found hFound
    exact hNone (hOther.1.mp ⟨found, hFound⟩)

end Store

end Transclusion
