import Mathlib.Data.Finset.Card
import Transclusion.Proofs.Path.Rooted
import Transclusion.Proofs.Resolve.Run
import Transclusion.Source.Memory

/-
  Resolvers of documents in memory, from any working
  directory.

  Key definitions include:
    * `Transclusion.Source.HoldsAtMost`
    * `Transclusion.Store.keys`
    * `Transclusion.Store.resolverFrom`

  Key theorems include:
    * `Transclusion.Store.holdsAtMost_card_keys`
    * `Transclusion.Store.isRooted_of_canonicalize`
    * `Transclusion.Store.canonicalize_text`

  A store holds as many documents as it has different keys.
  Its resolvers only ever meet rooted paths, whose texts are
  as good as the paths themselves.
-/

------------------------------------------------------------
-- Documents of a Store
------------------------------------------------------------

namespace Transclusion

/-
  No more than so many documents of different paths can be
  read.
-/
def Source.HoldsAtMost
    (source : Source)
    (count : Nat) : Prop :=
  ∀ paths : List CanonicalPath,
    paths.Nodup →
      (∀ path ∈ paths, ∃ content,
        source path = .ok content) →
        paths.length ≤ count

namespace Store

/- The different keys of the documents. -/
def keys
    (store : Store) : Finset (List Component) :=
  (store.documents.map (·.1)).toFinset

/- A document that can be read has a key. -/
theorem mem_keys_of_load
    {store : Store}
    {path : CanonicalPath}
    {content : String}
    (hLoad : store.load path = .ok content) :
    path.components ∈ store.keys := by
  unfold load find? at hLoad
  cases hLookup :
      store.documents.lookup path.components with
  | none => simp [hLookup] at hLoad
  | some text =>
      rcases List.lookup_eq_some_iff.mp hLookup with
        ⟨before, after, hDocuments, _hFirst⟩
      simp [keys, hDocuments]

/- A store holds as many documents as it has keys. -/
theorem holdsAtMost_card_keys
    (store : Store) :
    Source.HoldsAtMost store.load store.keys.card := by
  intro paths hNodup hRead
  have hComponents :
      (paths.map CanonicalPath.components).Nodup :=
    hNodup.map fun _ _ => CanonicalPath.components_injective
  have hSubset :
      (paths.map CanonicalPath.components).toFinset ⊆
        store.keys := by
    intro key hKey
    rcases List.mem_map.mp (List.mem_toFinset.mp hKey) with
      ⟨path, hPath, rfl⟩
    rcases hRead path hPath with ⟨content, hLoad⟩
    exact mem_keys_of_load hLoad
  calc
    paths.length =
        (paths.map CanonicalPath.components).length := by
      rw [List.length_map]
    _ = (paths.map
          CanonicalPath.components).toFinset.card :=
      (List.toFinset_card_of_nodup hComponents).symm
    _ ≤ store.keys.card := Finset.card_le_card hSubset

/- A store has no more different keys than documents. -/
theorem card_keys_le_size
    (store : Store) :
    store.keys.card ≤ store.size := by
  have hCard :=
    List.toFinset_card_le (store.documents.map (·.1))
  simpa [keys, size] using hCard

end Store

end Transclusion

------------------------------------------------------------
-- Working Directories
------------------------------------------------------------

namespace Transclusion

namespace Store

/-
  The resolver of the documents of a store from a working
  directory, which may be unknown.
-/
def resolverFrom
    (store : Store)
    (directory : Except Fault String)
    (config : Config) : Resolver :=
  { store.resolver config with
    directory := directory.map CanonicalPath.root.join }

/- A resolver runs with a bound above its documents. -/
theorem run_resolverFrom
    (store : Store)
    (directory : Except Fault String)
    (config : Config)
    (root : CanonicalPath) :
    (store.resolverFrom directory config).run root =
      resolveDocument store.load config (store.size + 1) []
        root true := by
  rfl

variable {store : Store}
variable {directory : Except Fault String}
variable {config : Config}
variable {path : String}
variable {root : CanonicalPath}

/- A path that is made canonical is rooted. -/
theorem isRooted_of_canonicalize
    (hRoot :
      (store.resolverFrom directory config).canonicalize
          path =
        .ok root) :
    root.IsRooted := by
  unfold Resolver.canonicalize at hRoot
  split at hRoot
  · rename_i hAbsolute
    rw [Except.ok.injEq] at hRoot
    subst hRoot
    exact CanonicalPath.isRooted_ofText hAbsolute
  · rcases map_eq_ok_iff.mp hRoot with
      ⟨base, hBase, rfl⟩
    rcases map_eq_ok_iff.mp hBase with
      ⟨text, hText, rfl⟩
    exact (CanonicalPath.isRooted_root.join text).join path

/- The text of a rooted path is as good as the path. -/
theorem canonicalize_text
    {path : CanonicalPath}
    (hRooted : path.IsRooted) :
    (store.resolverFrom directory config).canonicalize
        path.text =
      .ok path := by
  have hAbsolute : isAbsolutePath path.text = true :=
    path.isAbsolutePath_text.trans hRooted
  unfold Resolver.canonicalize
  rw [if_pos hAbsolute, path.ofText_text]

end Store

end Transclusion
