import Mathlib.Data.List.Basic
import Transclusion.Proofs.Path.Rooted

/-
  Spellings of relative paths.

  Key definitions include:
    * `Transclusion.Spells`
    * `Transclusion.IsSpelling`

  Key theorems include:
    * `Transclusion.Spells.pathNames_eq`
    * `Transclusion.spells_intercalate`
    * `Transclusion.IsSpelling.join_eq`

  Neither more slashes nor dots nor a name that is left
  again by a double dot change where a path leads, wherever
  it starts.
-/

------------------------------------------------------------
-- Segments
------------------------------------------------------------

namespace Transclusion

/-
  The texts that write segments in a row, with one slash or
  more between them and any number at the end.
-/
inductive Spells : List String → List Char → Prop where
  | last
      (segment : String)
      (slashes : Nat) :
      Spells [segment]
        (segment.toList ++ List.replicate slashes '/')
  | more
      {segments : List String}
      {chars : List Char}
      (segment : String)
      (slashes : Nat)
      (hRest : Spells segments chars) :
      Spells (segment :: segments)
        (segment.toList ++
          '/' :: (List.replicate slashes '/' ++ chars))

/- Slashes in front of a text do not change its names. -/
theorem pathNames_slashes
    (slashes : Nat)
    (chars : List Char) :
    pathNames
        (String.ofList
          (List.replicate slashes '/' ++ chars)) =
      pathNames (String.ofList chars) := by
  induction slashes with
  | zero => rfl
  | succ slashes ih =>
      have hSlash :=
        pathNames_slash []
          (List.replicate slashes '/' ++ chars)
      rw [pathNames_empty, List.nil_append,
        List.nil_append] at hSlash
      rw [List.replicate_succ, List.cons_append, hSlash, ih]

/- A segment alone is one name. -/
theorem IsSegment.pathNames_eq
    {segment : String}
    (hSegment : IsSegment segment) :
    pathNames (String.ofList segment.toList) =
      [segment] := by
  have hNotEmpty : segment.toList ≠ [] := by
    simpa using hSegment.notEmpty
  rw [pathNames_of_noSlash hNotEmpty hSegment.noSlash,
    String.ofList_toList]

variable {segments : List String}
variable {chars : List Char}

/- The names in a text are the segments that it writes. -/
theorem Spells.pathNames_eq
    (hSpells : Spells segments chars)
    (hSegments : ∀ segment ∈ segments, IsSegment segment) :
    pathNames (String.ofList chars) = segments := by
  induction hSpells with
  | last segment slashes =>
      have hSegment := hSegments segment List.mem_cons_self
      cases slashes with
      | zero =>
          rw [List.replicate_zero, List.append_nil,
            hSegment.pathNames_eq]
      | succ slashes =>
          have hSlashes := pathNames_slashes slashes []
          rw [List.append_nil, pathNames_empty] at hSlashes
          rw [List.replicate_succ, pathNames_slash,
            hSegment.pathNames_eq, hSlashes,
            List.append_nil]
  | more segment slashes hRest ih =>
      rw [List.forall_mem_cons] at hSegments
      rw [pathNames_slash, pathNames_slashes,
        hSegments.1.pathNames_eq, ih hSegments.2]
      rfl

/- A text that starts with a segment is relative. -/
theorem IsSegment.isAbsolutePath_append
    {segment : String}
    (hSegment : IsSegment segment)
    (rest : List Char) :
    isAbsolutePath
        (String.ofList (segment.toList ++ rest)) =
      false := by
  have hNotEmpty : segment.toList ≠ [] := by
    simpa using hSegment.notEmpty
  rw [Transclusion.isAbsolutePath_append hNotEmpty,
    isAbsolutePath_of_noSlash hSegment.noSlash]

/- A text that writes segments is relative. -/
theorem Spells.isRelative
    (hSpells : Spells segments chars)
    (hSegments : ∀ segment ∈ segments, IsSegment segment) :
    isAbsolutePath (String.ofList chars) = false := by
  cases hSpells with
  | last segment slashes =>
      have hSegment := hSegments segment List.mem_cons_self
      exact hSegment.isAbsolutePath_append _
  | more segment slashes hRest =>
      have hSegment := hSegments segment List.mem_cons_self
      exact hSegment.isAbsolutePath_append _

/- Segments are written by single slashes between them. -/
theorem spells_intercalate
    (hNotEmpty : segments ≠ []) :
    Spells segments ("/".intercalate segments).toList := by
  induction segments with
  | nil => exact absurd rfl hNotEmpty
  | cons segment segments ih =>
      cases segments with
      | nil => simpa using Spells.last segment 0
      | cons other segments =>
          have hRest := ih (List.cons_ne_nil _ _)
          simpa [List.intercalate] using
            hRest.more segment 0

end Transclusion

------------------------------------------------------------
-- Spellings
------------------------------------------------------------

namespace Transclusion

/-
  The spellings of a path of segments: as they are, with a
  dot somewhere between them, or with a name there that is
  left again at once.
-/
inductive IsSpelling
    (before after : List String)
    (name path : String) : Prop where
  | plain
      (hSpells : Spells (before ++ after) path.toList)
  | dotted
      (hSpells :
        Spells (before ++ "." :: after) path.toList)
  | detoured
      (hSpells :
        Spells (before ++ name :: ".." :: after)
          path.toList)

namespace IsSpelling

variable {before after : List String}
variable {name path : String}

/- What is written between the segments leads nowhere. -/
theorem exists_detour
    (hName : IsName name)
    (hPath : IsSpelling before after name path) :
    ∃ detour,
      Spells (before ++ (detour ++ after)) path.toList ∧
        (∀ segment ∈ detour, IsSegment segment) ∧
          ∀ names,
            detour.foldl CanonicalPath.step names =
              names := by
  have hParent : IsSegment ".." := ⟨by decide, by decide⟩
  cases hPath with
  | plain hSpells =>
      refine ⟨[], hSpells, ?_, fun names => rfl⟩
      intro segment hSegment
      cases hSegment
  | dotted hSpells =>
      refine ⟨["."], hSpells, ?_, fun names => rfl⟩
      intro segment hSegment
      rw [List.mem_singleton] at hSegment
      subst hSegment
      exact ⟨by decide, by decide⟩
  | detoured hSpells =>
      refine ⟨[name, ".."], hSpells, ?_, ?_⟩
      · intro segment hSegment
        rw [List.mem_pair] at hSegment
        rcases hSegment with rfl | rfl
        · exact hName.toIsSegment
        · exact hParent
      · intro names
        have hDown :
            CanonicalPath.step names name =
              names ++ [name] := by
          simp [CanonicalPath.step, hName.notCurrent,
            hName.notParent]
        rw [List.foldl_cons, hDown]
        exact List.dropLast_concat

/- Every spelling leads where the segments lead. -/
theorem join_eq
    (hSegments :
      ∀ segment ∈ before ++ after, IsSegment segment)
    (hName : IsName name)
    (hPath : IsSpelling before after name path)
    (directory : CanonicalPath) :
    (directory.join path).absolute = directory.absolute ∧
      (directory.join path).names =
        (before ++ after).foldl CanonicalPath.step
          directory.names := by
  rcases hPath.exists_detour hName with
    ⟨detour, hSpells, hDetour, hNowhere⟩
  have hAll :
      ∀ segment ∈ before ++ (detour ++ after),
        IsSegment segment := by
    rw [List.forall_mem_append] at hSegments
    rw [List.forall_mem_append, List.forall_mem_append]
    exact ⟨hSegments.1, hDetour, hSegments.2⟩
  have hNames := hSpells.pathNames_eq hAll
  have hRelative := hSpells.isRelative hAll
  rw [String.ofList_toList] at hNames hRelative
  unfold CanonicalPath.join
  rw [hRelative, if_neg (by decide)]
  refine ⟨rfl, ?_⟩
  rw [CanonicalPath.names_walk, hNames, List.foldl_append,
    List.foldl_append, hNowhere, List.foldl_append]

end IsSpelling

end Transclusion
