/-
  Components of path texts.

  Key definitions include:
    * `Transclusion.Component`
    * `Transclusion.isAbsolutePath`
    * `Transclusion.pathNames`
    * `Transclusion.IsName`
    * `Transclusion.components`

  Slashes separate names, and slashes in a row count as one.
  A dot is a component only at the very start of a relative
  path; elsewhere it stands for nothing.
-/

------------------------------------------------------------
-- Names
------------------------------------------------------------

namespace Transclusion

/- The texts between slashes, empty ones included. -/
def splitSlashes : List Char → List (List Char)
  | [] => [[]]
  | '/' :: rest => [] :: splitSlashes rest
  | c :: rest =>
      match splitSlashes rest with
      | [] => [[c]]
      | name :: more => (c :: name) :: more

/- The texts between slashes that are not empty. -/
def pathNames
    (path : String) : List String :=
  ((splitSlashes path.toList).filter (· ≠ [])).map
    String.ofList

/- Whether a path starts at the root. -/
def isAbsolutePath
    (path : String) : Bool :=
  path.toList.head? == some '/'

/- A text that can stand between slashes. -/
structure IsSegment
    (text : String) : Prop where
  notEmpty : text ≠ ""
  noSlash : '/' ∉ text.toList

/- A name that leads down from a directory. -/
structure IsName
    (name : String) : Prop extends IsSegment name where
  notCurrent : name ≠ "."
  notParent : name ≠ ".."

/- No text between slashes holds a slash. -/
theorem slash_not_mem_of_mem_splitSlashes
    {chars name : List Char}
    (hName : name ∈ splitSlashes chars) :
    '/' ∉ name := by
  fun_induction splitSlashes chars generalizing name with
  | case1 =>
      rw [List.mem_singleton] at hName
      subst hName
      exact List.not_mem_nil
  | case2 rest ih =>
      rcases List.mem_cons.mp hName with rfl | hRest
      · exact List.not_mem_nil
      · exact ih hRest
  | case3 c rest hSlash hNone ih =>
      rw [List.mem_singleton] at hName
      subst hName
      simpa using Ne.symm hSlash
  | case4 c rest hSlash first more hRest ih =>
      rw [hRest] at ih
      rcases List.mem_cons.mp hName with rfl | hMore
      · have hFirst := ih List.mem_cons_self
        simp [Ne.symm hSlash, hFirst]
      · exact ih (List.mem_cons_of_mem _ hMore)

/- The names in a path can stand between slashes. -/
theorem isSegment_of_mem_pathNames
    {path name : String}
    (hName : name ∈ pathNames path) :
    IsSegment name := by
  rcases List.mem_map.mp hName with ⟨chars, hChars, rfl⟩
  rcases List.mem_filter.mp hChars with ⟨hSplit, hNe⟩
  constructor
  · simpa using hNe
  · simpa using slash_not_mem_of_mem_splitSlashes hSplit

end Transclusion

------------------------------------------------------------
-- Components
------------------------------------------------------------

namespace Transclusion

/- One component of a path. -/
inductive Component where
  | root
  | current
  | parent
  | name (text : String)
  deriving DecidableEq

namespace Component

/- The component that a text between slashes stands for. -/
def ofName
    (text : String) : Component :=
  if text = ".." then .parent else .name text

/- The text of a component. -/
def text : Component → String
  | .root => "/"
  | .current => "."
  | .parent => ".."
  | .name text => text

/- The place of a component among the kinds. -/
def rank : Component → Nat
  | .root => 0
  | .current => 1
  | .parent => 2
  | .name _ => 3

/- Order by kind, and of names by their characters. -/
def le : Component → Component → Bool
  | .name a, .name b => decide (a ≤ b)
  | a, b => a.rank ≤ b.rank

end Component

/- The components of a path. -/
def components
    (path : String) : List Component :=
  let names := pathNames path
  let inner :=
    (names.filter (· ≠ ".")).map Component.ofName
  if isAbsolutePath path then
    .root :: inner
  else if names.head? = some "." then
    .current :: inner
  else
    inner

/- Order by the first component that differs. -/
def componentsLe :
    List Component → List Component → Bool
  | [], _ => true
  | _ :: _, [] => false
  | a :: as, b :: bs =>
      if a = b then componentsLe as bs else a.le b

end Transclusion
