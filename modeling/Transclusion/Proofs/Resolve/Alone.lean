import Transclusion.Proofs.Merge.Conflict
import Transclusion.Proofs.Merge.Sequence
import Transclusion.Proofs.Resolve.Document
import Transclusion.Proofs.Source.Memory
import Transclusion.Proofs.Value.Same

/-
  Documents that include nothing.

  Key theorems include:
    * `Transclusion.merge_empty_eq_settle`
    * `Transclusion.Config.split_of_field?_eq_none`
    * `Transclusion.resolveDocument_of_alone`
    * `Transclusion.Store.not_forall_resolve_alone`
    * `Transclusion.Store.resolve_alone`

  A document is merged into an object without fields even if
  nothing was put there by includes.  That changes no
  object, but a list or a scalar and an object are settled
  by the policy for keys, so that other policies than the
  one for second values do not keep it.
-/

------------------------------------------------------------
-- Lists and Scalars
------------------------------------------------------------

namespace Transclusion

variable {options : MergeOptions}
variable {value : Value}

/- A list or a scalar is settled with the empty object. -/
theorem merge_empty_eq_settle
    (hKind : value.kind ≠ .object)
    (hNotNull : value ≠ .null) :
    merge options .empty value =
      settle options.keyPolicy .empty value := by
  apply merge_of_operandsMeet
  refine ⟨fun hObjects => hKind hObjects.2, ?_, ?_⟩
  · rintro ⟨hNull, _hKind⟩
    cases hNull
  · rintro ⟨_hKind, hNull⟩
    exact hNotNull hNull

/- A list or a scalar differs from the empty object. -/
theorem same_empty_eq_false
    (hKind : value.kind ≠ .object) :
    Value.empty.same value = false := by
  rw [Bool.eq_false_iff]
  intro hSame
  exact hKind (Value.kind_eq_of_same hSame).symm

end Transclusion

------------------------------------------------------------
-- Documents without Includes
------------------------------------------------------------

namespace Transclusion

/- A document without a directive is all content. -/
theorem Config.split_of_field?_eq_none
    {config : Config}
    {document : Value}
    (hAlone : document.field? config.includesKey = none) :
    config.split document = ⟨[], true, document⟩ := by
  cases document with
  | object fields =>
      rw [Value.field?_object] at hAlone
      simp only [split, hAlone]
  | _ => rfl

/- A document without a directive is merged into nothing. -/
theorem resolveDocument_of_alone
    {source : Source}
    {config : Config}
    {bound : Nat}
    {ancestors : List CanonicalPath}
    {path : CanonicalPath}
    {isRoot : Bool}
    {document : Value}
    (hNew : path ∉ ancestors)
    (hDocument : document? (source path) = some document)
    (hAlone : document.field? config.includesKey = none) :
    (resolveDocument source config (bound + 1) ancestors
          path isRoot).result =
      (merge config.merge .empty document).mapError
        (.conflict path) := by
  rw [resolveDocument_of_document hNew hDocument]
  simp only [assemble, Config.split_of_field?_eq_none hAlone]
  rw [mergeIncludes, Run.bind_of_ok rfl]
  rfl

end Transclusion

------------------------------------------------------------
-- Stores
------------------------------------------------------------

namespace Transclusion

namespace Store

/- Two documents without includes, a list and an object. -/
def loners : Store :=
  ofList
    [("/list.yaml", "- 1\n- a: b\n"),
      ("/settings.yaml", "b: 1\na: [x]\n")]

/- A list by itself is lost where first values are kept. -/
theorem not_forall_resolve_alone :
    ¬ ∀ (store : Store) (directory : Except Fault String)
        (config : Config) (path : String)
        (root : CanonicalPath) (text : String)
        (value : Value),
      (store.resolverFrom directory config).canonicalize
            path =
          .ok root →
        store.load root = .ok text →
          parseText text = .ok value →
            value ≠ .null →
              value.field? config.includesKey = none →
                (store.resolverFrom directory
                      config).resolve path =
                  .ok value := by
  intro hAll
  let config : Config := { merge := { keyPolicy := .first } }
  let value : Value :=
    .array
      [.number (.integer { value := 1 }),
        .object [("a", .string "b")]]
  have hValue :
      (loners.resolverFrom (.ok "/") config).resolve
          "/list.yaml" =
        .ok value := by
    refine
      hAll loners (.ok "/") config "/list.yaml"
        (.ofText "/list.yaml") "- 1\n- a: b\n" value ?_ ?_ ?_
        ?_ rfl <;>
      decide +kernel
  have hEmpty :
      (loners.resolverFrom (.ok "/") config).resolve
          "/list.yaml" =
        .ok .empty := by
    decide +kernel
  rw [hEmpty, Except.ok.injEq] at hValue
  exact Value.noConfusion hValue

/-
  An object without a directive is returned as it is under
  all policies, and so is any other document where second
  values are kept.  Other policies settle a document that
  can be no object with the object without fields.
-/
theorem resolve_alone
    (store : Store)
    (directory : Except Fault String)
    (config : Config)
    (path : String)
    {root : CanonicalPath}
    {text : String}
    {value : Value}
    (hRoot :
      (store.resolverFrom directory config).canonicalize
          path =
        .ok root)
    (hText : store.load root = .ok text)
    (hParse : parseText text = .ok value)
    (hNotNull : value ≠ .null)
    (hAlone : value.field? config.includesKey = none) :
    let resolved :=
      (store.resolverFrom directory config).resolve path
    (value.kind = .object ∨
          config.merge.keyPolicy = .second →
        resolved = .ok value) ∧
      (value.kind ≠ .object →
        config.merge.keyPolicy = .first →
          resolved = .ok .empty) ∧
      (value.kind ≠ .object →
        config.merge.keyPolicy = .error →
          resolved =
            .error (.resolve (.conflict root ⟨[]⟩))) := by
  intro resolved
  have hDocument :
      document? (store.load root) = some value :=
    document?_eq_some_iff.mpr ⟨text, hText, hParse⟩
  have hMerge :
      resolved =
        ((merge config.merge .empty value).mapError
            (ResolveError.conflict root)).mapError
          .resolve := by
    dsimp only [resolved]
    rw [Resolver.resolve_eq hRoot, run_resolverFrom,
      resolveDocument_of_alone List.not_mem_nil hDocument
        hAlone]
  refine ⟨?object, ?first, ?error⟩
  case object =>
    intro hKept
    by_cases hKind : value.kind = .object
    · rw [hMerge, merge_empty_left hKind]
      rfl
    · have hSecond := hKept.resolve_left hKind
      rw [hMerge, merge_empty_eq_settle hKind hNotNull,
        hSecond]
      rfl
  case first =>
    intro hKind hFirst
    rw [hMerge, merge_empty_eq_settle hKind hNotNull,
      hFirst]
    rfl
  case error =>
    intro hKind hError
    rw [hMerge, merge_empty_eq_settle hKind hNotNull,
      hError, settle, same_empty_eq_false hKind]
    rfl

/-
  An object is returned where no two values may differ, but
  a list is in conflict.
-/
theorem resolve_alone_loners :
    let config : Config :=
      { merge := { keyPolicy := .error } }
    let resolver := loners.resolverFrom (.ok "/") config
    let list : Value :=
      .array
        [.number (.integer { value := 1 }),
          .object [("a", .string "b")]]
    let settings : Value :=
      .object
        [("b", .number (.integer { value := 1 })),
          ("a", .array [.string "x"])]
    (resolver.canonicalize "/settings.yaml" =
          .ok (.ofText "/settings.yaml") ∧
        loners.load (.ofText "/settings.yaml") =
          .ok "b: 1\na: [x]\n" ∧
        parseText "b: 1\na: [x]\n" = .ok settings ∧
        settings ≠ .null ∧
        settings.field? config.includesKey = none ∧
        resolver.resolve "/settings.yaml" = .ok settings) ∧
      resolver.canonicalize "/list.yaml" =
          .ok (.ofText "/list.yaml") ∧
        loners.load (.ofText "/list.yaml") =
          .ok "- 1\n- a: b\n" ∧
        parseText "- 1\n- a: b\n" = .ok list ∧
        list ≠ .null ∧
        list.field? config.includesKey = none ∧
        resolver.resolve "/list.yaml" =
          .error
            (.resolve
              (.conflict (.ofText "/list.yaml") ⟨[]⟩)) := by
  intro config resolver list settings
  constructor
  · have hRoot :
        resolver.canonicalize "/settings.yaml" =
          .ok (.ofText "/settings.yaml") := by
      decide +kernel
    have hText :
        loners.load (.ofText "/settings.yaml") =
          .ok "b: 1\na: [x]\n" := by
      decide +kernel
    have hParse :
        parseText "b: 1\na: [x]\n" = .ok settings := by
      decide +kernel
    have hNotNull : settings ≠ .null := Value.noConfusion
    have hAlone :
        settings.field? config.includesKey = none := by
      decide
    exact
      ⟨hRoot, hText, hParse, hNotNull, hAlone,
        (resolve_alone loners (.ok "/") config
          "/settings.yaml" hRoot hText hParse hNotNull
          hAlone).1 (.inl rfl)⟩
  · have hRoot :
        resolver.canonicalize "/list.yaml" =
          .ok (.ofText "/list.yaml") := by
      decide +kernel
    have hText :
        loners.load (.ofText "/list.yaml") =
          .ok "- 1\n- a: b\n" := by
      decide +kernel
    have hParse :
        parseText "- 1\n- a: b\n" = .ok list := by
      decide +kernel
    have hNotNull : list ≠ .null := Value.noConfusion
    have hKind : list.kind ≠ .object := by
      decide
    exact
      ⟨hRoot, hText, hParse, hNotNull, rfl,
        (resolve_alone loners (.ok "/") config "/list.yaml"
          hRoot hText hParse hNotNull rfl).2.2 hKind rfl⟩

end Store

end Transclusion
