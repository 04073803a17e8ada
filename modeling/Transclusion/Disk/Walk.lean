import Transclusion.Disk.Tree
import Transclusion.Path.Component
import Transclusion.Source.Fault

/-
  Where a path leads in a tree.

  Key definitions include:
    * `Transclusion.Purpose`
    * `Transclusion.Place`
    * `Transclusion.Tree.walk`

  Unlike a canonical path, a walk looks at every directory
  on its way: a double dot leaves the directory that was
  reached, and a link leads on from where it stands.
-/

------------------------------------------------------------
-- Limits
------------------------------------------------------------

namespace Transclusion

namespace Tree

/- The most links that one walk follows. -/
def linkLimit : Nat :=
  40

/- The most octets of one name. -/
def nameLimit : Nat :=
  255

/- The most octets of a path. -/
def pathLimit : Nat :=
  4095

end Tree

end Transclusion

------------------------------------------------------------
-- Walks
------------------------------------------------------------

namespace Transclusion

/-
  What a walk is for: to reach what is there, to name an
  entry that may be a link, or to create a file.
-/
inductive Purpose where
  | reach
  | entry
  | create
  deriving DecidableEq

/-
  The end of a walk: a node, or a free name in a directory.
  A slash at the end of a path asks for a directory.
-/
inductive Place where
  | found (names : List String) (node : Node) (slash : Bool)
  | free (directory : List String) (name : String)

/- Whether a path ends in a slash. -/
def endsInSlash
    (path : String) : Bool :=
  path.toList.getLast? == some '/'

namespace Tree

/-
  Walk along names from a directory, with a way to go on
  from a link.  A file is not created with a slash behind
  its name, and nothing is found in a directory that was
  taken away.
-/
def walkNames
    (tree : Tree)
    (purpose : Purpose)
    (onLink :
      List String → List String → Bool →
        Except SystemFault Place)
    (slash : Bool)
    (here : List String) :
    List String → Except SystemFault Place
  | [] => .ok (.found here .directory slash)
  | name :: rest =>
      if name = "." then
        walkNames tree purpose onLink slash here rest
      else if name = ".." then
        walkNames tree purpose onLink slash here.dropLast
          rest
      else if purpose = .create && rest = [] && slash then
        .error .isDirectory
      else if !tree.isDirectory here then
        .error .notFound
      else if nameLimit < name.utf8ByteSize then
        .error .nameTooLong
      else
        match tree.node? (here ++ [name]) with
        | some .directory =>
            walkNames tree purpose onLink slash
              (here ++ [name]) rest
        | some (.link target) =>
            if rest = [] && purpose = .entry then
              .ok (.found (here ++ [name]) (.link target)
                slash)
            else
              let start :=
                if isAbsolutePath target then [] else here
              let slash :=
                slash || (rest.isEmpty && endsInSlash target)
              onLink start (pathNames target ++ rest) slash
        | some node =>
            if rest = [] then
              .ok (.found (here ++ [name]) node slash)
            else .error .notDirectory
        | none =>
            if rest = [] then .ok (.free here name)
            else .error .notFound

/- Walk along names with so many links to follow. -/
def walkLinks
    (tree : Tree)
    (purpose : Purpose) :
    Nat → List String → List String → Bool →
      Except SystemFault Place
  | 0, here, names, slash =>
      walkNames tree purpose
        (fun _ _ _ => .error .tooManyLinks) slash here names
  | links + 1, here, names, slash =>
      walkNames tree purpose
        (walkLinks tree purpose links) slash here names

/- Walk along a path from a directory. -/
def walk
    (tree : Tree)
    (purpose : Purpose)
    (directory : List String)
    (path : String) : Except SystemFault Place :=
  if path = "" then .error .notFound
  else if pathLimit < path.utf8ByteSize then
    .error .nameTooLong
  else
    walkLinks tree purpose linkLimit
      (if isAbsolutePath path then [] else directory)
      (pathNames path) (endsInSlash path)

end Tree

end Transclusion
