import Transclusion.Proofs.Merge.Precedence
import Transclusion.Proofs.Resolve.IncludeTree

/-
  Which of the documents of a resolution decides what is
  found by a path of keys.

  Key theorems include:
    * `Transclusion.Resolver.exists_included_of_resolve`
    * `Transclusion.Resolver.decides_of_resolve`

  What a document includes contributes in the order of its
  references, and its own content comes last, wherever its
  directive stands.
-/

------------------------------------------------------------
-- Contributions
------------------------------------------------------------

namespace Transclusion

namespace Resolver

/-
  A document that is found resolves to the merge of what its
  references resolve to and of its content.
-/
theorem exists_included_of_resolve
    {resolver : Resolver}
    {path : String}
    {root : CanonicalPath}
    {document value : Value}
    (hRoot : resolver.canonicalize path = .ok root)
    (hDocument :
      document? (resolver.source root) = some document)
    (hOk : resolver.resolve path = .ok value) :
    ∃ included : List Value,
      List.Forall₂
          (fun reference contribution =>
            (resolver.run
                (resolveInclude root reference)).result =
              .ok contribution)
          (resolver.config.split document).references
          included ∧
        mergeAll resolver.config.merge
            (included ++
              [(resolver.config.split document).content]) =
          .ok value := by
  rcases exists_resolution_of_resolve hRoot hOk with
    ⟨whole, hWhole, rfl⟩
  obtain ⟨source, directory, config, bound⟩ := resolver
  cases bound with
  | zero => cases hWhole
  | succ bound =>
      rcases (resolveDocument_resolution_eq_ok_iff
          List.not_mem_nil hDocument).mp hWhole with
        ⟨included, hIncluded, hAssembled⟩
      refine ⟨included.map (·.document), ?_, ?_⟩
      · rw [List.forall₂_map_right_iff]
        refine hIncluded.imp ?_
        intro reference resolution hResolved
        have hResult :=
          (Run.resolution_eq_ok_iff.mp hResolved).1
        exact
          resolveDocument_result_mono (Nat.le_succ bound)
            hResult
      · rcases hAssembled.merged with
          ⟨inherited, hInherited, hMerged⟩
        refine
          foldlM_merge_append_eq_ok_iff.mpr
            ⟨inherited, hInherited, ?_⟩
        exact
          foldlM_merge_cons_eq_ok_iff.mpr
            ⟨whole.document, hMerged, rfl⟩

end Resolver

end Transclusion

------------------------------------------------------------
-- Paths of Keys
------------------------------------------------------------

namespace Transclusion

namespace Resolver

/-
  Where later values replace earlier ones and a document and
  its includes contribute objects, nothing is found by a
  path that none of them touches, and otherwise the last of
  them that touches it decides.  So the plain values of the
  document itself are all found.
-/
theorem decides_of_resolve
    (resolver : Resolver)
    (path : String)
    {root : CanonicalPath}
    {document value : Value}
    (hOverrides : resolver.config.merge.Overrides)
    (hRoot : resolver.canonicalize path = .ok root)
    (hDocument :
      document? (resolver.source root) = some document)
    (hOk : resolver.resolve path = .ok value) :
    ∃ included : List Value,
      List.Forall₂
          (fun reference contribution =>
            (resolver.run
                (resolveInclude root reference)).result =
              .ok contribution)
          (resolver.config.split document).references
          included ∧
        ∀ contributions : List Value,
          contributions =
              included ++
                [(resolver.config.split
                    document).content] →
            (∀ contribution ∈ contributions,
                contribution.kind = .object) →
              (∀ keys,
                (∀ contribution ∈ contributions,
                    ¬ contribution.Touches keys) →
                  value.at? keys = none) ∧
              (∀ keys before last after,
                contributions = before ++ last :: after →
                  (∀ contribution ∈ after,
                      ¬ contribution.Touches keys) →
                    last.Decides keys
                      (value.at? keys)) ∧
              ∀ key rest found,
                key ≠ resolver.config.includesKey →
                  document.at? (key :: rest) =
                      some found →
                    found.kind = .plain →
                      value.at? (key :: rest) =
                        some found := by
  rcases exists_included_of_resolve hRoot hDocument hOk with
    ⟨included, hIncluded, hMerged⟩
  refine ⟨included, hIncluded, ?_⟩
  rintro contributions rfl hObjects
  refine ⟨?untouched, ?touched, ?own⟩
  case untouched =>
    intro keys hAlone
    cases keys with
    | nil =>
        have hContent :=
          hAlone _
            (List.mem_append_right _ List.mem_cons_self)
        cases hContent (Value.touches_nil _)
    | cons key rest =>
        rw [at?_of_foldlM_merge hOverrides rfl hObjects
          hAlone hMerged]
        rfl
  case touched =>
    intro keys before last after hSplit hAlone
    rw [hSplit] at hObjects
    rw [mergeAll, hSplit] at hMerged
    exact
      decides_of_foldlM_merge hOverrides rfl hObjects hAlone
        hMerged
  case own =>
    intro key rest found hKey hFound hPlain
    have hDecides :
        (resolver.config.split document).content.Decides
          (key :: rest) (value.at? (key :: rest)) :=
      decides_of_foldlM_merge hOverrides rfl hObjects
        (List.forall_mem_nil _) hMerged
    refine hDecides.plain found ?_ hPlain
    rw [Config.at?_content hKey]
    exact hFound

end Resolver

namespace Store

/-
  A document with three includes: the first has an object
  under a key, the second replaces it by a text, and the
  third begins anew.
-/
def recreating : Store :=
  ofList
    [("/conf/main.yaml",
        "db: \x7bname: main\x7d\nincludes: [a, b, c]\n"),
      ("/conf/a",
        "db: \x7bhost: a, pool: \x7bmode: a\x7d\x7d\n"),
      ("/conf/b", "db: none\n"),
      ("/conf/c", "db: \x7bhost: c\x7d\n")]

/- The path of the document with the includes. -/
def recreatingRoot : CanonicalPath :=
  .ofText "/conf/main.yaml"

/- The document with the includes, on its own. -/
def recreatingDocument : Value :=
  .object
    [("db", .object [("name", .string "main")]),
      ("includes",
        .array [.string "a", .string "b", .string "c"])]

/- What the includes resolve to. -/
def recreatingIncluded : List Value :=
  [.object
      [("db",
          .object
            [("host", .string "a"),
              ("pool", .object [("mode", .string "a")])])],
    .object [("db", .string "none")],
    .object [("db", .object [("host", .string "c")])]]

/- What the document resolves to. -/
def recreatingValue : Value :=
  .object
    [("db",
        .object
          [("host", .string "c"),
            ("name", .string "main")])]

/-
  The text decides that nothing of the first include is
  left, the third include decides about what it has, and the
  document about its own.
-/
theorem decides_recreating :
    let resolver := recreating.resolverFrom (.ok "/") {}
    resolver.config.merge.Overrides ∧
      resolver.canonicalize "/conf/main.yaml" =
          .ok recreatingRoot ∧
        document? (resolver.source recreatingRoot) =
            some recreatingDocument ∧
          resolver.resolve "/conf/main.yaml" =
              .ok recreatingValue ∧
            recreatingValue.at? ["db", "pool", "mode"] =
                none ∧
              recreatingValue.at? ["db", "host"] =
                  some (.string "c") ∧
                recreatingValue.at? ["db", "name"] =
                    some (.string "main") ∧
                  recreatingValue.at? ["cache"] =
                    none := by
  intro resolver
  have hOverrides : resolver.config.merge.Overrides :=
    ⟨rfl, rfl⟩
  have hRoot :
      resolver.canonicalize "/conf/main.yaml" =
        .ok recreatingRoot := by
    decide +kernel
  have hDocument :
      document? (resolver.source recreatingRoot) =
        some recreatingDocument := by
    decide +kernel
  have hOk :
      resolver.resolve "/conf/main.yaml" =
        .ok recreatingValue := by
    decide +kernel
  rcases Resolver.decides_of_resolve resolver
      "/conf/main.yaml" hOverrides hRoot hDocument hOk with
    ⟨included, hIncluded, hLaw⟩
  have hKnown :
      List.Forall₂
        (fun reference contribution =>
          (resolver.run
              (resolveInclude recreatingRoot
                reference)).result =
            .ok contribution)
        (resolver.config.split
          recreatingDocument).references
        recreatingIncluded := by
    refine .cons ?_ (.cons ?_ (.cons ?_ .nil))
    all_goals decide +kernel
  have hSame : included = recreatingIncluded := by
    refine List.right_unique_forall₂' ?_ hIncluded hKnown
    intro reference first second hFirst hSecond
    exact Except.ok.inj (hFirst.symm.trans hSecond)
  subst hSame
  rcases hLaw _ rfl (by decide +kernel) with
    ⟨hUntouched, hTouched, hOwn⟩
  refine
    ⟨hOverrides, hRoot, hDocument, hOk, ?_, ?_, ?_, ?_⟩
  · have hDecides :=
      hTouched ["db", "pool", "mode"]
        (recreatingIncluded.take 1)
        (.object [("db", .string "none")])
        (recreatingIncluded.drop 2 ++
          [(resolver.config.split
              recreatingDocument).content])
        (by decide +kernel) (by decide +kernel)
    exact hDecides.cut (by decide +kernel)
  · have hDecides :=
      hTouched ["db", "host"]
        (recreatingIncluded.take 2)
        (.object [("db", .object [("host", .string "c")])])
        [(resolver.config.split recreatingDocument).content]
        (by decide +kernel) (by decide +kernel)
    exact hDecides.plain _ (by decide +kernel) rfl
  · exact
      hOwn "db" ["name"] _ (by decide +kernel)
        (by decide +kernel) rfl
  · exact hUntouched ["cache"] (by decide +kernel)

end Store

end Transclusion
