import Transclusion.Path.Component

/-
  Canonical paths: the identities of documents.

  Key definitions include:
    * `Transclusion.CanonicalPath`
    * `Transclusion.CanonicalPath.walk`
    * `Transclusion.CanonicalPath.ofText`
    * `Transclusion.CanonicalPath.join`
    * `Transclusion.canonicalizeFrom`
    * `Transclusion.resolveInclude`

  A canonical path is made of names alone.  It holds neither
  a dot nor a double dot: the first is left out, and the
  second takes away the name before it, if there is one.  No
  file is looked at.
-/

------------------------------------------------------------
-- Canonical Paths
------------------------------------------------------------

namespace Transclusion

/- A path reduced to the names that lead to a document. -/
@[ext]
structure CanonicalPath where
  absolute : Bool
  names : List String
  isName : ∀ name ∈ names, IsName name
  deriving DecidableEq

namespace CanonicalPath

/- Where paths start: at the root, if they are absolute. -/
def origin
    (absolute : Bool) : CanonicalPath where
  absolute := absolute
  names := []
  isName := List.forall_mem_nil _

/- The root directory. -/
def root : CanonicalPath :=
  origin true

/- Take one step from a place given by its names. -/
def step
    (names : List String)
    (name : String) : List String :=
  if name = "." then names
  else if name = ".." then names.dropLast
  else names ++ [name]

/- A step from names leads to names. -/
theorem isName_of_mem_step
    {names : List String}
    {name : String}
    (hNames : ∀ other ∈ names, IsName other)
    (hSegment : IsSegment name) :
    ∀ other ∈ step names name, IsName other := by
  unfold step
  intro other hOther
  split at hOther
  · exact hNames other hOther
  · split at hOther
    · exact hNames other (List.dropLast_subset _ hOther)
    · rename_i hCurrent hParent
      rcases List.mem_append.mp hOther with hOld | hNew
      · exact hNames other hOld
      · rw [List.mem_singleton] at hNew
        subst hNew
        exact ⟨hSegment, hCurrent, hParent⟩

/- A walk from names leads to names. -/
theorem isName_of_mem_foldl_step
    {walk names : List String}
    (hWalk : ∀ name ∈ walk, IsSegment name)
    (hNames : ∀ other ∈ names, IsName other) :
    ∀ other ∈ walk.foldl step names, IsName other := by
  induction walk generalizing names with
  | nil => exact hNames
  | cons name rest ih =>
      rw [List.forall_mem_cons] at hWalk
      exact ih hWalk.2 (isName_of_mem_step hNames hWalk.1)

/- Where the names in a path text lead from a place. -/
def walk
    (place : CanonicalPath)
    (path : String) : CanonicalPath where
  absolute := place.absolute
  names := (pathNames path).foldl step place.names
  isName :=
    isName_of_mem_foldl_step
      (fun _ => isSegment_of_mem_pathNames) place.isName

/- The canonical form of a path text. -/
def ofText
    (path : String) : CanonicalPath :=
  (origin (isAbsolutePath path)).walk path

/-
  The path that a reference names from a directory.  An
  absolute reference ignores the directory.
-/
def join
    (directory : CanonicalPath)
    (reference : String) : CanonicalPath :=
  if isAbsolutePath reference then ofText reference
  else directory.walk reference

/-
  The directory of a document.  The root is its own, and so
  is the empty path.
-/
def parent
    (path : CanonicalPath) : CanonicalPath where
  absolute := path.absolute
  names := path.names.dropLast
  isName := fun name hName =>
    path.isName name (List.dropLast_subset _ hName)

/- A walk takes one step after the other. -/
@[simp]
theorem names_walk
    (place : CanonicalPath)
    (path : String) :
    (place.walk path).names =
      (pathNames path).foldl step place.names := by
  rfl

/- The names in a path text are taken from no others. -/
@[simp]
theorem names_ofText
    (path : String) :
    (ofText path).names = (pathNames path).foldl step [] := by
  rfl

/- The directory has all names but the last. -/
@[simp]
theorem names_parent
    (path : CanonicalPath) :
    path.parent.names = path.names.dropLast := by
  rfl

/- The text of a path. -/
def text
    (path : CanonicalPath) : String :=
  let names := "/".intercalate path.names
  if path.absolute then "/" ++ names else names

/- The components of a canonical path. -/
def components
    (path : CanonicalPath) : List Component :=
  let names := path.names.map Component.name
  if path.absolute then .root :: names else names

/- Order by the first component that differs. -/
def le
    (a b : CanonicalPath) : Bool :=
  componentsLe a.components b.components

end CanonicalPath

end Transclusion

------------------------------------------------------------
-- Resolution of References
------------------------------------------------------------

namespace Transclusion

/- The canonical form of a path taken from a directory. -/
def canonicalizeFrom
    (directory path : String) : CanonicalPath :=
  (CanonicalPath.ofText directory).join path

/-
  The document that a reference found in another document
  names.
-/
def resolveInclude
    (including : CanonicalPath)
    (reference : String) : CanonicalPath :=
  including.parent.join reference

end Transclusion
