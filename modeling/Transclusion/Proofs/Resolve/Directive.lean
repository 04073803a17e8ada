import Mathlib.Logic.Equiv.Basic
import Transclusion.Proofs.Merge.Rekey
import Transclusion.Proofs.Resolve.Correspondence
import Transclusion.Proofs.Resolve.IncludeTree

/-
  The key of the directive, at the root and below it.

  Key definitions include:
    * `Transclusion.Rekeyed`
    * `Transclusion.rekeying`

  Key theorems include:
    * `Transclusion.Config.field?_content_self`
    * `Transclusion.Config.split_rekeyBelow`
    * `Transclusion.IncludeTree.Assembles.field?_document`
    * `Transclusion.rekeying_respects`
    * `Transclusion.Store.directive_only_at_root`

  No document has its directive when it is merged, and no
  merge brings a key that neither side has.  Below the root,
  the key of the directive is like any other: with different
  names for the keys there, everything is resolved as before
  with these names.
-/

------------------------------------------------------------
-- At the Root
------------------------------------------------------------

namespace Transclusion

variable {config : Config}

/- Without its directive, a document has no such key. -/
theorem Config.field?_content_self
    (document : Value) :
    (config.split document).content.field?
        config.includesKey =
      none := by
  unfold Config.split
  split
  · split
    · rename_i hAbsent
      exact hAbsent
    · exact Fields.get?_erase_self _ _
  · rename_i hNoFields
    apply Value.field?_of_kind_ne
    intro hObject
    rcases Value.kind_eq_object_iff.mp hObject with
      ⟨fields, hFields⟩
    exact hNoFields fields hFields

/- A key that neither side has is in no merge. -/
theorem field?_merge_eq_none
    {options : MergeOptions}
    {key : String}
    {first second merged : Value}
    (hFirst : first.field? key = none)
    (hSecond : second.field? key = none)
    (hOk : merge options first second = .ok merged) :
    merged.field? key = none := by
  rcases merge_eq_ok_cases hOk with
    rfl | rfl | ⟨as, bs, fields, rfl, rfl, rfl, hFields⟩
  · exact hFirst
  · exact hSecond
  · have hMerged := mergeAt_of_mergeFields hFields key
    rw [Value.field?_object] at hFirst hSecond ⊢
    rw [hFirst, hSecond, mergeAt_none_left,
      Except.ok.injEq] at hMerged
    exact hMerged.symm

/- What a tree comes to does not have the directive. -/
theorem IncludeTree.Assembles.field?_document
    {tree : IncludeTree}
    {whole : Resolution}
    (hAssembles : tree.Assembles config whole) :
    whole.document.field? config.includesKey = none := by
  -- The documents behind the value do not matter.
  let absent (_documents : List Value) (value : Value) :=
    value.field? config.includesKey = none
  have hFold : absent tree.postorder whole.document := by
    refine hAssembles.fold rfl ?merge ?content
    case merge =>
      intro before after first second merged hFirst hSecond
        hOk
      exact field?_merge_eq_none hFirst hSecond hOk
    case content =>
      intro document _hMem
      exact Config.field?_content_self document
  exact hFold

/- What is resolved does not have the directive. -/
theorem Resolver.field?_of_resolve
    {resolver : Resolver}
    {path : String}
    {value : Value}
    (hOk : resolver.resolve path = .ok value) :
    value.field? resolver.config.includesKey = none := by
  rcases exists_report_of_resolve hOk with
    ⟨whole, hReport, rfl⟩
  cases hRoot : resolver.canonicalize path with
  | error fault =>
      rw [report_of_invalid hRoot] at hReport
      cases hReport
  | ok root =>
      rcases report_cases hRoot hReport with
        ⟨fault, _hMissing, rfl⟩ | ⟨tree, _hTree, hAssembles⟩
      · rfl
      · exact hAssembles.field?_document

end Transclusion

------------------------------------------------------------
-- Below the Root
------------------------------------------------------------

namespace Transclusion

variable {config : Config}
variable {rename : String → String}

/-
  Texts of documents that only differ in the names of the
  keys below their roots, or a text that is no document.
-/
inductive Rekeyed
    (rename : String → String) :
    Except Fault String → Except Fault String → Prop where
  | same
      {text : Except Fault String}
      (hNone : document? text = none) :
      Rekeyed rename text text
  | renamed
      {text text' : Except Fault String}
      {document : Value}
      (hDocument : document? text = some document)
      (hDocument' :
        document? text' =
          some (document.rekeyBelow rename)) :
      Rekeyed rename text text'

/- Other names below the root leave the directive alone. -/
theorem Config.split_rekeyBelow
    (document : Value) :
    config.split (document.rekeyBelow rename) =
      { references := (config.split document).references
        wellFormed := (config.split document).wellFormed
        content :=
          (config.split document).content.rekeyBelow
            rename } := by
  cases document with
  | object fields =>
      have hGet :
          Fields.get? (Value.rekeyFields rename id fields)
              config.includesKey =
            (Fields.get? fields config.includesKey).map
              (Value.rekey rename) :=
        Value.get?_rekeyFields Function.injective_id fields
          config.includesKey
      rw [Value.rekeyBelow]
      unfold Config.split
      dsimp only
      rw [hGet]
      cases Fields.get? fields config.includesKey with
      | none => rfl
      | some directive =>
          simp only [Option.map_some, Value.strings?_rekey,
            Value.erase_rekeyFields, Value.rekeyBelow]
  | _ => rfl

/- Resolutions with other names for the keys below roots. -/
def rekeying
    (rename : String → String) : Correspondence where
  path := Eq
  fault := Eq
  value value value' := value' = value.rekeyBelow rename
  clash clash clash' := clash' = clash.rekey rename id

/- Texts with other names are found to correspond. -/
theorem Rekeyed.finds
    {path : CanonicalPath}
    {text text' : Except Fault String}
    (hRekeyed : Rekeyed rename text text') :
    (rekeying rename).Finds config path path text text' := by
  cases hRekeyed with
  | same hNone =>
      rcases lookup_cases text with
        ⟨fault, rfl⟩ | ⟨content, error, rfl, hParse⟩ |
        ⟨document, hDocument⟩
      · exact .missing rfl
      · exact .malformed hParse hParse
      · rw [hNone] at hDocument
        cases hDocument
  | renamed hDocument hDocument' =>
      refine .found hDocument hDocument' ?_
      rw [Config.split_rekeyBelow]
      exact
        { references := List.forall₂_same.mpr fun _ _ => rfl
          wellFormed := rfl
          content := rfl }

/- Resolutions cannot tell one name below a root from another. -/
theorem rekeying_respects
    {source source' : Source}
    (hRename : Function.Injective rename)
    (hRekeyed :
      ∀ path, Rekeyed rename (source path) (source' path)) :
    (rekeying rename).Respects source source' config where
  unique := by
    rintro path _ other _ rfl rfl
    rfl
  finds := by
    rintro path _ rfl
    exact (hRekeyed path).finds
  empty := rfl
  merge := by
    rintro first _ second _ rfl rfl
    rw [merge_rekeyBelow hRename]
    cases merge config.merge first second with
    | error clash => exact .error rfl
    | ok merged => exact .ok rfl

/- Failures with other names in their conflicts. -/
theorem Failure.Corresponds.rekeyed
    {failure failure' : Failure}
    (hFailure :
      failure.Corresponds (rekeying rename) failure') :
    failure'.rootKind = failure.rootKind ∧
      failure'.chain = failure.chain ∧
        failure'.cycle? = failure.cycle? ∧
          failure'.conflict? =
            failure.conflict?.map
              (MergeConflict.rekey rename id) := by
  cases hFailure with
  | @resolve error error' hError =>
      have hCause := hError.rootCause
      have hChain := eq_of_forall₂ id hError.includeChain
      refine ⟨hCause.kind_eq, ?chain, ?causes⟩
      case chain => rw [chain, chain, hChain]
      case causes =>
        unfold cycle? conflict?
        dsimp only
        generalize error.rootCause = cause at hCause ⊢
        generalize error'.rootCause = cause' at hCause ⊢
        cases hCause with
        | circular hPath hCycle =>
            rw [eq_of_forall₂ id hCycle]
            exact ⟨rfl, rfl⟩
        | conflict hPath hClash =>
            rw [hClash]
            exact ⟨rfl, rfl⟩
        | _ => exact ⟨rfl, rfl⟩

end Transclusion

------------------------------------------------------------
-- Stores
------------------------------------------------------------

namespace Transclusion

namespace Store

variable {rename : String → String}

/- Stores with other names in each text have them everywhere. -/
theorem rekeyed_load
    {store store' : Store}
    (hRelated :
      List.Forall₂
        (fun first second =>
          first.1 = second.1 ∧
            Rekeyed rename (.ok first.2) (.ok second.2))
        store.documents store'.documents)
    (file : CanonicalPath) :
    Rekeyed rename (store.load file)
      (store'.load file) := by
  have hLookup :=
    rel_lookup_of_forall₂
      (R := fun text text' =>
        Rekeyed rename (.ok text) (.ok text'))
      hRelated file.components
  unfold load find?
  generalize store.documents.lookup file.components = found
    at hLookup ⊢
  generalize store'.documents.lookup file.components = found'
    at hLookup ⊢
  cases hLookup with
  | none => exact .same rfl
  | some hText => exact hText

/- Texts with other names are reported with these names. -/
theorem report_rekeyed
    {store store' : Store}
    {directory : Except Fault String}
    {config : Config}
    {path : String}
    {root : CanonicalPath}
    (hRename : Function.Injective rename)
    (hRekeyed :
      ∀ file,
        Rekeyed rename (store.load file)
          (store'.load file))
    (hRoot :
      (store.resolverFrom directory config).canonicalize
          path =
        .ok root) :
    ResultCorresponds
      (Failure.Corresponds (rekeying rename))
      (Resolution.Corresponds (rekeying rename))
      ((store.resolverFrom directory config).report path)
      ((store'.resolverFrom directory config).report
        path) :=
  report_corresponds (rekeying_respects hRename hRekeyed)
    hRoot hRoot rfl

/-
  The key of the directive is at the root of nothing that is
  resolved.  Elsewhere it is a key like any other: whatever
  stands below the root of a document stays, and with other
  names for the keys there, the same is resolved with these
  names, or fails alike.
-/
theorem directive_only_at_root
    (store : Store)
    (directory : Except Fault String)
    (config : Config)
    (path : String) :
    let resolver := store.resolverFrom directory config
    (∀ value,
        resolver.resolve path = .ok value →
          value.field? config.includesKey = none) ∧
      (∀ (document : Value) (key : String)
          (rest : List String),
          key ≠ config.includesKey →
            (config.split document).content.at?
                (key :: rest) =
              document.at? (key :: rest)) ∧
        ∀ (rename : String → String) (store' : Store),
          Function.Injective rename →
            (∀ file,
                Rekeyed rename (store.load file)
                  (store'.load file)) →
              let resolver' :=
                store'.resolverFrom directory config
              (∀ whole,
                  resolver.report path = .ok whole →
                    resolver'.report path =
                      .ok
                        { whole with
                          document :=
                            whole.document.rekeyBelow
                              rename }) ∧
                ∀ failure,
                  resolver.report path = .error failure →
                    ∃ failure',
                      resolver'.report path =
                          .error failure' ∧
                        failure'.rootKind =
                            failure.rootKind ∧
                          failure'.chain = failure.chain ∧
                            failure'.cycle? =
                                failure.cycle? ∧
                              failure'.conflict? =
                                failure.conflict?.map
                                  (MergeConflict.rekey
                                    rename id) := by
  intro resolver
  refine ⟨?root, ?content, ?below⟩
  case root =>
    intro value hOk
    exact Resolver.field?_of_resolve hOk
  case content =>
    intro document key rest hKey
    exact Config.at?_content hKey
  case below =>
    intro rename store' hRename hRekeyed resolver'
    cases hRoot : resolver.canonicalize path with
    | error fault =>
        have hReport := Resolver.report_of_invalid hRoot
        have hReport' :
            resolver'.report path =
              .error (.invalidPath path fault) :=
          Resolver.report_of_invalid hRoot
        rw [hReport, hReport']
        constructor
        · intro whole hOk
          cases hOk
        · intro failure hFailure
          cases hFailure
          exact ⟨_, rfl, rfl, rfl, rfl, rfl⟩
    | ok root =>
        have hAlike :=
          report_rekeyed hRename hRekeyed hRoot
        constructor
        · intro whole hOk
          rcases hAlike.exists_of_ok hOk with
            ⟨whole', hReport', hWhole⟩
          rw [hReport', hWhole.eq id id, hWhole.document]
        · intro failure hFailure
          rcases hAlike.exists_of_error hFailure with
            ⟨failure', hReport', hFailure'⟩
          exact ⟨failure', hReport', hFailure'.rekeyed⟩

/-
  Documents with a boolean and a tagged text as the key of
  the directive, and with some key further inside.
-/
def nested
    (key : String) : Store :=
  ⟨[([.root, .name "main.yaml"],
        "true: [part.yaml]\nouter:\n  " ++ key ++
          ": [a]\n"),
      ([.root, .name "part.yaml"],
        "!!str true: part\nouter:\n  " ++ key ++
          ": [b]\n")]⟩

/- The first document, with that key. -/
def nestedMain
    (key : String) : Value :=
  .object
    [("true", .array [.string "part.yaml"]),
      ("outer", .object [(key, .array [.string "a"])])]

/- The second document, with that key. -/
def nestedPart
    (key : String) : Value :=
  .object
    [("true", .string "part"),
      ("outer", .object [(key, .array [.string "b"])])]

/- The texts only differ in the key further inside. -/
theorem rekeyed_nested
    (file : CanonicalPath) :
    Rekeyed (Equiv.swap "true" "other")
      ((nested "true").load file)
      ((nested "other").load file) := by
  apply rekeyed_load
  refine .cons ⟨rfl, ?main⟩ (.cons ⟨rfl, ?part⟩ .nil)
  case main =>
    have hDocument :
        document?
            (.ok
              ("true: [part.yaml]\nouter:\n  " ++ "true" ++
                ": [a]\n")) =
          some (nestedMain "true") := by
      decide +kernel
    apply Rekeyed.renamed hDocument
    decide +kernel
  case part =>
    have hDocument :
        document?
            (.ok
              ("!!str true: part\nouter:\n  " ++ "true" ++
                ": [b]\n")) =
          some (nestedPart "true") := by
      decide +kernel
    apply Rekeyed.renamed hDocument
    decide +kernel

/- The key is merged inside, and is gone outside. -/
theorem directive_only_at_root_nested :
    let config : Config := { includesKey := "true" }
    let resolver :=
      (nested "true").resolverFrom (.ok "/") config
    let resolver' :=
      (nested "other").resolverFrom (.ok "/") config
    let rename := Equiv.swap "true" "other"
    ∃ whole,
      resolver.report "/main.yaml" = .ok whole ∧
        resolver.resolve "/main.yaml" =
            .ok whole.document ∧
          whole.document.field? "true" = none ∧
            Function.Injective rename ∧
              (∀ file,
                  Rekeyed rename
                    ((nested "true").load file)
                    ((nested "other").load file)) ∧
                resolver'.report "/main.yaml" =
                    .ok
                      { whole with
                        document :=
                          whole.document.rekeyBelow
                            rename } ∧
                  whole.document.rekeyBelow rename =
                    .object
                      [("outer",
                          .object
                            [("other",
                                .array
                                  [.string "b",
                                    .string "a"])])] := by
  intro config resolver resolver' rename
  let part : CanonicalPath := .ofText "/part.yaml"
  let whole : Resolution :=
    { document :=
        .object
          [("outer",
              .object
                [("true",
                    .array [.string "b", .string "a"])])]
      files := [.ofText "/main.yaml", part]
      warnings := [.malformedIncludes part] }
  have hReport :
      resolver.report "/main.yaml" = .ok whole := by
    decide +kernel
  have hResolve :
      resolver.resolve "/main.yaml" =
        .ok whole.document := by
    rw [Resolver.resolve, hReport]
    rfl
  have hLaw :=
    directive_only_at_root (nested "true") (.ok "/") config
      "/main.yaml"
  have hRenamed :=
    (hLaw.2.2 rename (nested "other") rename.injective
        rekeyed_nested).1
      whole hReport
  refine
    ⟨whole, hReport, hResolve, hLaw.1 _ hResolve,
      rename.injective, rekeyed_nested, hRenamed, ?_⟩
  decide +kernel

end Store

end Transclusion
