import Transclusion.Proofs.Path.Rooted

/-
  Paths below a directory.

  Key definitions include:
    * `Transclusion.CanonicalPath.below`
    * `Transclusion.StaysBelow`

  Key theorems include:
    * `Transclusion.CanonicalPath.below_inj`
    * `Transclusion.StaysBelow.foldl_step`
    * `Transclusion.CanonicalPath.resolveInclude_below`

  A walk that takes away no names but those below a
  directory leads to the same names below any directory.
-/

------------------------------------------------------------
-- Walks
------------------------------------------------------------

namespace Transclusion

/-
  A walk that starts at names below a directory and does not
  leave the directory: a double dot always takes away a name
  that is below it.
-/
def StaysBelow : List String → List String → Prop
  | _, [] => True
  | names, name :: walk =>
      (name = ".." → names ≠ []) ∧
        StaysBelow (CanonicalPath.step names name) walk

/- Whether a walk does this can be decided. -/
def decideStaysBelow :
    (names walk : List String) →
      Decidable (StaysBelow names walk)
  | _, [] => .isTrue trivial
  | names, name :: walk =>
      have := decideStaysBelow
        (CanonicalPath.step names name) walk
      inferInstanceAs
        (Decidable
          ((name = ".." → names ≠ []) ∧
            StaysBelow (CanonicalPath.step names name)
              walk))

instance
    (names walk : List String) :
    Decidable (StaysBelow names walk) :=
  decideStaysBelow names walk

/- A step that stays below a directory is taken there. -/
theorem CanonicalPath.step_append
    {names : List String}
    {name : String}
    (hStays : name = ".." → names ≠ [])
    (above : List String) :
    step (above ++ names) name = above ++ step names name := by
  unfold step
  by_cases hCurrent : name = "."
  · rw [if_pos hCurrent, if_pos hCurrent]
  · rw [if_neg hCurrent, if_neg hCurrent]
    by_cases hParent : name = ".."
    · rw [if_pos hParent, if_pos hParent,
        List.dropLast_append_of_ne_nil (hStays hParent)]
    · rw [if_neg hParent, if_neg hParent,
        List.append_assoc]

/- A walk that stays below a directory leads to names there. -/
theorem StaysBelow.foldl_step
    {names walk : List String}
    (hStays : StaysBelow names walk)
    (above : List String) :
    walk.foldl CanonicalPath.step (above ++ names) =
      above ++ walk.foldl CanonicalPath.step names := by
  induction walk generalizing names with
  | nil => rfl
  | cons name walk ih =>
      rcases hStays with ⟨hName, hWalk⟩
      rw [List.foldl_cons, List.foldl_cons,
        CanonicalPath.step_append hName, ih hWalk]

end Transclusion

------------------------------------------------------------
-- Directories
------------------------------------------------------------

namespace Transclusion

namespace CanonicalPath

variable {base path other : CanonicalPath}

/- The names of a path below a directory. -/
def below
    (base path : CanonicalPath) : CanonicalPath where
  absolute := base.absolute
  names := base.names ++ path.names
  isName :=
    List.forall_mem_append.mpr ⟨base.isName, path.isName⟩

/- Below a directory, different names are different paths. -/
theorem below_inj :
    base.below path = base.below other ↔
      path.names = other.names := by
  simp [below]

/- Names below a directory come after its components. -/
theorem components_below :
    (base.below path).components =
      base.components ++ path.names.map Component.name := by
  unfold components below
  cases base.absolute with
  | true => simp
  | false => simp

/- An include that stays below a directory is found there. -/
theorem resolveInclude_below
    {reference : String}
    (hNames : path.names ≠ [])
    (hRelative : isAbsolutePath reference = false)
    (hStays :
      StaysBelow path.names.dropLast (pathNames reference)) :
    resolveInclude (base.below path) reference =
      base.below (resolveInclude path reference) := by
  have hParent :
      (base.below path).parent.names =
        base.names ++ path.parent.names :=
    List.dropLast_append_of_ne_nil hNames
  unfold resolveInclude join
  rw [if_neg (by rw [hRelative]; decide),
    if_neg (by rw [hRelative]; decide)]
  ext1
  · rfl
  · rw [names_walk, hParent]
    exact hStays.foldl_step base.names

end CanonicalPath

end Transclusion
