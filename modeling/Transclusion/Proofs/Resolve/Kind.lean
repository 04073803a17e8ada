import Transclusion.Proofs.Resolve.Alone

/-
  The kinds of documents that are resolved.

  Key theorems include:
    * `Transclusion.kind_of_merge_into_object`
    * `Transclusion.kind_of_merge_of_object`
    * `Transclusion.kind_of_resolveDocument_object`
    * `Transclusion.resolveDocument_of_kind_ne`
    * `Transclusion.kind_of_resolveDocument`
    * `Transclusion.Store.kind_of_resolve`

  Documents are merged into an object, which stays one
  unless second values are kept.  Where they are, lists and
  scalars can take its place on the way, but a document that
  includes others is an object itself and comes last.
-/

------------------------------------------------------------
-- Merges with Objects
------------------------------------------------------------

namespace Transclusion

variable {options : MergeOptions}
variable {first second merged : Value}

/- The first value is kept if second values never are. -/
theorem eq_first_of_settle
    {policy : KeyPolicy}
    (hPolicy : policy ≠ .second)
    (hOk : settle policy first second = .ok merged) :
    merged = first := by
  cases policy with
  | first => exact (Except.ok.inj hOk).symm
  | second => contradiction
  | error =>
      rw [settle] at hOk
      split at hOk
      · exact (Except.ok.inj hOk).symm
      · cases hOk

/- Operands that do not settle merge to an object. -/
theorem kind_of_merge_of_not_operandsMeet
    (hMeet : ¬ OperandsMeet first second)
    (hOk : merge options first second = .ok merged) :
    merged.kind = .object := by
  unfold merge at hOk
  split at hOk
  · rcases map_eq_ok_iff.mp hOk with ⟨fields, _hOk, rfl⟩
    rfl
  · cases hOk
    rfl
  · cases hOk
    rfl
  · rename_i hObjects hLeft hRight
    refine absurd ⟨?_, ?_, ?_⟩ hMeet
    · rintro ⟨hFirst, hSecond⟩
      rcases Value.kind_eq_object_iff.mp hFirst with ⟨as, hAs⟩
      rcases Value.kind_eq_object_iff.mp hSecond with
        ⟨bs, hBs⟩
      exact hObjects as bs hAs hBs
    · rintro ⟨hNull, hSecond⟩
      rcases Value.kind_eq_object_iff.mp hSecond with
        ⟨bs, hBs⟩
      exact hLeft bs hNull hBs
    · rintro ⟨hFirst, hNull⟩
      rcases Value.kind_eq_object_iff.mp hFirst with ⟨as, hAs⟩
      exact hRight as hAs hNull

/-
  What is merged into an object leaves an object, unless
  second values are kept.
-/
theorem kind_of_merge_into_object
    (hPolicy : options.keyPolicy ≠ .second)
    (hFirst : first.kind = .object)
    (hOk : merge options first second = .ok merged) :
    merged.kind = .object := by
  by_cases hMeet : OperandsMeet first second
  · rw [merge_of_operandsMeet hMeet] at hOk
    rw [eq_first_of_settle hPolicy hOk, hFirst]
  · exact kind_of_merge_of_not_operandsMeet hMeet hOk

/-
  An object merged into any value leaves an object where
  second values are kept.
-/
theorem kind_of_merge_of_object
    (hPolicy : options.keyPolicy = .second)
    (hSecond : second.kind = .object)
    (hOk : merge options first second = .ok merged) :
    merged.kind = .object := by
  by_cases hMeet : OperandsMeet first second
  · rw [merge_of_operandsMeet hMeet, hPolicy] at hOk
    cases hOk
    exact hSecond
  · exact kind_of_merge_of_not_operandsMeet hMeet hOk

/-
  Documents of all kinds merge to an object, unless second
  values are kept.
-/
theorem kind_of_mergeAll
    {documents : List Value}
    (hPolicy : options.keyPolicy ≠ .second)
    (hOk : mergeAll options documents = .ok merged) :
    merged.kind = .object := by
  have hEmpty : Value.empty.kind = .object := rfl
  unfold mergeAll at hOk
  generalize Value.empty = first at hEmpty hOk
  induction documents generalizing first with
  | nil =>
      cases hOk
      exact hEmpty
  | cons document rest ih =>
      rcases foldlM_merge_cons_eq_ok_iff.mp hOk with
        ⟨next, hNext, hRest⟩
      exact
        ih next
          (kind_of_merge_into_object hPolicy hEmpty hNext)
          hRest

end Transclusion

------------------------------------------------------------
-- One Document
------------------------------------------------------------

namespace Transclusion

variable {source : Source}
variable {config : Config}
variable {bound : Nat}
variable {ancestors : List CanonicalPath}
variable {path : CanonicalPath}
variable {isRoot : Bool}
variable {document value : Value}

/- An object resolves to an object, whatever it includes. -/
theorem kind_of_resolveDocument_object
    (hDocument : document? (source path) = some document)
    (hKind : document.kind = .object)
    (hOk :
      (resolveDocument source config bound ancestors path
          isRoot).result =
        .ok value) :
    value.kind = .object := by
  have hNew := (resolveDocument_result_eq_ok_cases hOk).1
  cases bound with
  | zero => cases hOk
  | succ bound =>
      rcases Run.exists_resolution hOk with
        ⟨whole, hWhole, rfl⟩
      rcases (resolveDocument_resolution_eq_ok_iff hNew
          hDocument).mp hWhole with
        ⟨included, _hIncluded, hAssembled⟩
      rcases hAssembled.merged with
        ⟨inherited, hInherited, hMerge⟩
      by_cases hPolicy : config.merge.keyPolicy = .second
      · have hContent :
            (config.split document).content.kind =
              .object := by
          rw [Config.kind_content, hKind]
        exact kind_of_merge_of_object hPolicy hContent hMerge
      · exact
          kind_of_merge_into_object hPolicy
            (kind_of_mergeAll hPolicy hInherited) hMerge

/-
  A null resolves to the object without fields, and a list
  or a scalar to itself or to such an object.
-/
theorem resolveDocument_of_kind_ne
    (hDocument : document? (source path) = some document)
    (hKind : document.kind ≠ .object)
    (hOk :
      (resolveDocument source config bound ancestors path
          isRoot).result =
        .ok value) :
    value =
      if config.merge.keyPolicy = .second ∧
          document ≠ .null then
        document
      else
        .empty := by
  have hNew := (resolveDocument_result_eq_ok_cases hOk).1
  cases bound with
  | zero => cases hOk
  | succ bound =>
      have hAlone :
          document.field? config.includesKey = none :=
        Value.field?_of_kind_ne hKind _
      rw [resolveDocument_of_alone hNew hDocument hAlone,
        mapError_eq_ok_iff] at hOk
      by_cases hNull : document = .null
      · subst hNull
        cases hOk
        simp [Value.empty]
      · rw [merge_empty_eq_settle hKind hNull] at hOk
        by_cases hPolicy : config.merge.keyPolicy = .second
        · rw [hPolicy] at hOk
          cases hOk
          simp [hPolicy, hNull]
        · simpa [hPolicy] using
            eq_first_of_settle hPolicy hOk

/-
  What a document resolves to is an object, unless second
  values are kept and the document is a list or a scalar,
  which resolves to itself.
-/
theorem kind_of_resolveDocument
    (hDocument : document? (source path) = some document)
    (hOk :
      (resolveDocument source config bound ancestors path
          isRoot).result =
        .ok value) :
    value ≠ .null ∧
      (value.kind = .object ↔
        config.merge.keyPolicy ≠ .second ∨
          document.kind = .object ∨ document = .null) ∧
      (value.kind ≠ .object → value = document) := by
  by_cases hKind : document.kind = .object
  · have hObject :=
      kind_of_resolveDocument_object hDocument hKind hOk
    refine
      ⟨?_, iff_of_true hObject (.inr (.inl hKind)),
        fun hOther => absurd hObject hOther⟩
    rintro rfl
    cases hObject
  · rw [resolveDocument_of_kind_ne hDocument hKind hOk]
    split
    · rename_i hKept
      refine ⟨hKept.2, ?_, fun _hOther => rfl⟩
      simp [hKept.1, hKept.2]
    · rename_i hLost
      refine
        ⟨Value.noConfusion, iff_of_true rfl ?_,
          fun hOther => absurd rfl hOther⟩
      rcases not_and_or.mp hLost with hPolicy | hNull
      · exact .inl hPolicy
      · exact .inr (.inr (not_not.mp hNull))

end Transclusion

------------------------------------------------------------
-- Stores
------------------------------------------------------------

namespace Transclusion

namespace Store

/-
  Nothing resolves to null, and to anything but an object
  only where second values are kept and the root is a list
  or a scalar, which is returned as it is.
-/
theorem kind_of_resolve
    (store : Store)
    (directory : Except Fault String)
    (config : Config)
    (path : String)
    {root : CanonicalPath}
    {value : Value}
    (hRoot :
      (store.resolverFrom directory config).canonicalize
          path =
        .ok root)
    (hOk :
      (store.resolverFrom directory config).resolve path =
        .ok value) :
    value ≠ .null ∧
      (value.kind = .object ↔
        config.merge.keyPolicy ≠ .second ∨
          (∃ fault, store.load root = .error fault) ∨
          ∃ document,
            document? (store.load root) = some document ∧
              (document.kind = .object ∨
                document = .null)) ∧
      (value.kind ≠ .object →
        document? (store.load root) = some value) := by
  rw [Resolver.resolve_eq hRoot, mapError_eq_ok_iff,
    run_resolverFrom] at hOk
  rcases (resolveDocument_result_eq_ok_cases hOk).2 with
    ⟨_hIsRoot, _hLenient, fault, hMissing⟩ |
    ⟨document, hDocument⟩
  · have hEmpty : value = .empty := by
      rw [resolveDocument_of_missing List.not_mem_nil
        hMissing] at hOk
      split at hOk
      · exact (Except.ok.inj hOk).symm
      · cases hOk
    subst hEmpty
    exact
      ⟨Value.noConfusion,
        iff_of_true rfl (.inr (.inl ⟨fault, hMissing⟩)),
        fun hOther => absurd rfl hOther⟩
  · rcases kind_of_resolveDocument hDocument hOk with
      ⟨hNotNull, hObject, hOther⟩
    have hRead :
        ∀ fault, store.load root ≠ .error fault := by
      intro fault hMissing
      rw [hMissing] at hDocument
      cases hDocument
    refine ⟨hNotNull, ?_, ?_⟩
    · rw [hObject]
      simp [hDocument, hRead]
    · intro hKind
      rw [hOther hKind]
      exact hDocument

/-
  A list, a document that only includes the list, and one
  that includes both and has a field of its own.
-/
def listing : Store :=
  ofList
    [("/list.yaml", "- 1\n"),
      ("/lists.yaml", "includes: [list.yaml]\n"),
      ("/main.yaml",
        "includes: [lists.yaml, list.yaml]\na: x\n")]

/-
  A list that is included gives way to an object, and one
  that is the root is returned.
-/
theorem kind_of_resolve_listing :
    let resolver := listing.resolverFrom (.ok "/") {}
    let main : CanonicalPath := .ofText "/main.yaml"
    let list : CanonicalPath := .ofText "/list.yaml"
    let object : Value := .object [("a", .string "x")]
    let items : Value :=
      .array [.number (.integer { value := 1 })]
    (resolver.canonicalize "/main.yaml" = .ok main ∧
        resolver.resolve "/main.yaml" = .ok object ∧
          object ≠ .null ∧
            (object.kind = .object ↔
              resolver.config.merge.keyPolicy ≠ .second ∨
                (∃ fault,
                  listing.load main = .error fault) ∨
                ∃ document,
                  document? (listing.load main) =
                      some document ∧
                    (document.kind = .object ∨
                      document = .null))) ∧
      resolver.canonicalize "/list.yaml" = .ok list ∧
        resolver.resolve "/list.yaml" = .ok items ∧
          items.kind ≠ .object ∧
            document? (listing.load list) = some items := by
  intro resolver main list object items
  constructor
  · have hRoot :
        resolver.canonicalize "/main.yaml" = .ok main := by
      decide +kernel
    have hOk :
        resolver.resolve "/main.yaml" = .ok object := by
      decide +kernel
    have hKind :=
      kind_of_resolve listing (.ok "/") {} "/main.yaml"
        hRoot hOk
    exact ⟨hRoot, hOk, hKind.1, hKind.2.1⟩
  · have hRoot :
        resolver.canonicalize "/list.yaml" = .ok list := by
      decide +kernel
    have hOk :
        resolver.resolve "/list.yaml" = .ok items := by
      decide +kernel
    have hOther : items.kind ≠ .object := by
      decide
    have hKind :=
      kind_of_resolve listing (.ok "/") {} "/list.yaml"
        hRoot hOk
    exact ⟨hRoot, hOk, hOther, hKind.2.2 hOther⟩

end Store

end Transclusion
