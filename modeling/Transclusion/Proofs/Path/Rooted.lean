import Transclusion.Path.Canonical

/-
  Rooted paths, and the texts of canonical paths.

  Key definitions include:
    * `Transclusion.CanonicalPath.IsRooted`

  Key theorems include:
    * `Transclusion.splitSlashes_eq_splitOn`
    * `Transclusion.CanonicalPath.IsRooted.resolveInclude`
    * `Transclusion.CanonicalPath.pathNames_text`
    * `Transclusion.CanonicalPath.ofText_text`

  Whatever is taken from a rooted directory is rooted again.
  The text of a path tells the path, for its names all lead
  down.
-/

------------------------------------------------------------
-- Names
------------------------------------------------------------

namespace Transclusion

/- Splitting at slashes is the library's splitting. -/
theorem splitSlashes_eq_splitOn
    (chars : List Char) :
    splitSlashes chars = chars.splitOn '/' := by
  induction chars with
  | nil => rfl
  | cons c rest ih =>
      rw [List.splitOn_cons_eq_if_modifyHead]
      by_cases hSlash : c = '/'
      · subst hSlash
        simp [splitSlashes, ih]
      · have hParts := List.splitOn_ne_nil '/' rest
        cases hRest : rest.splitOn '/' with
        | nil => exact absurd hRest hParts
        | cons name more =>
            simp [splitSlashes, hSlash, ih, hRest]

/- A slash stands between the names of what is around it. -/
theorem pathNames_slash
    (before after : List Char) :
    pathNames (String.ofList (before ++ '/' :: after)) =
      pathNames (String.ofList before) ++
        pathNames (String.ofList after) := by
  simp [pathNames, splitSlashes_eq_splitOn,
    List.splitOn_append_cons_self]

/- A text without slashes is one name. -/
theorem pathNames_of_noSlash
    {chars : List Char}
    (hNotEmpty : chars ≠ [])
    (hNoSlash : '/' ∉ chars) :
    pathNames (String.ofList chars) =
      [String.ofList chars] := by
  simp [pathNames, splitSlashes_eq_splitOn,
    List.splitOn_eq_singleton hNoSlash, hNotEmpty]

/- The empty text holds no name. -/
theorem pathNames_empty :
    pathNames (String.ofList []) = [] := by
  simp [pathNames, splitSlashes_eq_splitOn]

/- What follows a text does not change where it starts. -/
theorem isAbsolutePath_append
    {before : List Char}
    (hNotEmpty : before ≠ [])
    (after : List Char) :
    isAbsolutePath (String.ofList (before ++ after)) =
      isAbsolutePath (String.ofList before) := by
  cases before with
  | nil => exact absurd rfl hNotEmpty
  | cons c rest => simp [isAbsolutePath]

/- A text without slashes is relative. -/
theorem isAbsolutePath_of_noSlash
    {chars : List Char}
    (hNoSlash : '/' ∉ chars) :
    isAbsolutePath (String.ofList chars) = false := by
  cases chars with
  | nil => rfl
  | cons c rest =>
      have hSlash : c ≠ '/' := by
        rintro rfl
        exact hNoSlash List.mem_cons_self
      simpa [isAbsolutePath] using hSlash

/- Names with slashes between them are told apart. -/
theorem pathNames_intercalate
    {names : List String}
    (hNames : ∀ name ∈ names, IsSegment name) :
    pathNames ("/".intercalate names) = names := by
  by_cases hEmpty : names = []
  · subst hEmpty
    exact pathNames_empty
  · have hNoSlash :
        ∀ chars ∈ names.map String.toList,
          '/' ∉ chars := by
      intro chars hChars
      rcases List.mem_map.mp hChars with ⟨name, hName, rfl⟩
      exact (hNames name hName).noSlash
    have hKept :
        (names.map String.toList).filter (· ≠ []) =
          names.map String.toList := by
      apply List.filter_eq_self.mpr
      intro chars hChars
      rcases List.mem_map.mp hChars with ⟨name, hName, rfl⟩
      simpa using (hNames name hName).notEmpty
    have hChars :
        ("/".intercalate names).toList =
          ['/'].intercalate (names.map String.toList) := by
      simp
    unfold pathNames
    rw [hChars, splitSlashes_eq_splitOn,
      List.splitOn_intercalate '/' hNoSlash (by simpa),
      hKept]
    simp

end Transclusion

------------------------------------------------------------
-- Walks
------------------------------------------------------------

namespace Transclusion

namespace CanonicalPath

/- A walk over names only goes down. -/
theorem foldl_step_eq_append
    {walk : List String}
    (hWalk : ∀ name ∈ walk, IsName name)
    (start : List String) :
    walk.foldl step start = start ++ walk := by
  induction walk generalizing start with
  | nil => simp
  | cons name rest ih =>
      have hName := hWalk name List.mem_cons_self
      have hStep : step start name = start ++ [name] := by
        simp [step, hName.notCurrent, hName.notParent]
      rw [List.foldl_cons, hStep, ih, List.append_assoc]
      · rfl
      · intro other hOther
        exact hWalk other (List.mem_cons_of_mem _ hOther)

end CanonicalPath

end Transclusion

------------------------------------------------------------
-- Rooted Paths
------------------------------------------------------------

namespace Transclusion

namespace CanonicalPath

/- A path that leads down from the root. -/
def IsRooted
    (path : CanonicalPath) : Prop :=
  path.absolute = true

/- The root is rooted. -/
theorem isRooted_root : root.IsRooted :=
  rfl

/- An absolute path text names a rooted path. -/
theorem isRooted_ofText
    {path : String}
    (hAbsolute : isAbsolutePath path = true) :
    (ofText path).IsRooted :=
  hAbsolute

/- A reference from a rooted directory is rooted. -/
theorem IsRooted.join
    {directory : CanonicalPath}
    (hRooted : directory.IsRooted)
    (reference : String) :
    (directory.join reference).IsRooted := by
  unfold CanonicalPath.join
  split
  · rename_i hAbsolute
    exact isRooted_ofText hAbsolute
  · exact hRooted

/- The directory of a rooted document is rooted. -/
theorem IsRooted.parent
    {path : CanonicalPath}
    (hRooted : path.IsRooted) :
    path.parent.IsRooted :=
  hRooted

/- An include of a rooted document is rooted. -/
theorem IsRooted.resolveInclude
    {path : CanonicalPath}
    (hRooted : path.IsRooted)
    (reference : String) :
    (resolveInclude path reference).IsRooted :=
  hRooted.parent.join reference

end CanonicalPath

end Transclusion

------------------------------------------------------------
-- Texts of Paths
------------------------------------------------------------

namespace Transclusion

/- Names between slashes do not start at the root. -/
theorem isAbsolutePath_intercalate
    {names : List String}
    (hNames : ∀ name ∈ names, IsName name) :
    isAbsolutePath ("/".intercalate names) = false := by
  cases names with
  | nil => rfl
  | cons name names =>
      have hName := hNames name List.mem_cons_self
      have hNotEmpty : name.toList ≠ [] := by
        simpa using hName.notEmpty
      have hAlone := isAbsolutePath_of_noSlash hName.noSlash
      have hFirst :
          ∃ rest,
            "/".intercalate (name :: names) =
              String.ofList (name.toList ++ rest) := by
        cases names with
        | nil => exact ⟨[], by simp⟩
        | cons other names =>
            refine
              ⟨'/' :: ("/".intercalate
                (other :: names)).toList, ?_⟩
            simp [← String.toList_inj]
      rcases hFirst with ⟨rest, hText⟩
      rw [hText, isAbsolutePath_append hNotEmpty, hAlone]

namespace CanonicalPath

variable {path : CanonicalPath}

/- The text of an absolute path is absolute. -/
theorem isAbsolutePath_text
    (path : CanonicalPath) :
    isAbsolutePath path.text = path.absolute := by
  unfold text
  cases hAbsolute : path.absolute with
  | true => simp [isAbsolutePath]
  | false =>
      simpa using isAbsolutePath_intercalate path.isName

/- The text of a path holds just its names. -/
theorem pathNames_text
    (path : CanonicalPath) :
    pathNames path.text = path.names := by
  have hNames :
      pathNames ("/".intercalate path.names) = path.names :=
    pathNames_intercalate fun name hName =>
      (path.isName name hName).toIsSegment
  unfold text
  cases path.absolute with
  | true =>
      have hText :
          "/" ++ "/".intercalate path.names =
            String.ofList
              ([] ++
                '/' :: ("/".intercalate path.names).toList) := by
        simp [← String.toList_inj]
      rw [if_pos rfl, hText, pathNames_slash, pathNames_empty,
        List.nil_append, String.ofList_toList, hNames]
  | false => exact hNames

/- The text of a path names it. -/
theorem ofText_text
    (path : CanonicalPath) :
    ofText path.text = path := by
  ext1
  · exact path.isAbsolutePath_text
  · change (pathNames path.text).foldl step [] = path.names
    rw [path.pathNames_text, foldl_step_eq_append path.isName,
      List.nil_append]

end CanonicalPath

end Transclusion

------------------------------------------------------------
-- Components of Paths
------------------------------------------------------------

namespace Transclusion

namespace CanonicalPath

/- Paths with the same components are the same. -/
theorem components_injective
    {a b : CanonicalPath}
    (hEq : a.components = b.components) :
    a = b := by
  have hName :
      Function.Injective Component.name := by
    intro name other hNames
    exact Component.name.inj hNames
  rcases a with ⟨absolute, names⟩
  rcases b with ⟨absolute', names'⟩
  cases absolute <;> cases absolute'
  · simpa [components, List.map_inj_right hName] using hEq
  · cases names <;> simp [components] at hEq
  · cases names' <;> simp [components] at hEq
  · simpa [components, List.map_inj_right hName] using hEq

end CanonicalPath

end Transclusion
