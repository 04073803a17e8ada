import Transclusion.Path.Component

/-
  Parents of path texts.

  Key definitions include:
    * `Transclusion.parentPath?`

  The parent keeps the spelling of what it keeps: only the
  last component goes, with the slashes and dots that no
  longer separate anything.
-/

------------------------------------------------------------
-- Parents
------------------------------------------------------------

namespace Transclusion

/-
  Drop what stands for nothing from the end of a path, which
  is given from its end to its start.
-/
def trimEnd : List Char → List Char
  | ['/'] => ['/']
  | '/' :: rest => trimEnd rest
  | '.' :: '/' :: rest => trimEnd ('/' :: rest)
  | chars => chars

/-
  The path without its last component.  The root and the
  empty path have no parent.
-/
def parentPath?
    (path : String) : Option String :=
  match trimEnd path.toList.reverse with
  | [] => none
  | ['/'] => none
  | chars =>
      let rest := trimEnd (chars.dropWhile (· ≠ '/'))
      some (String.ofList rest.reverse)

end Transclusion
