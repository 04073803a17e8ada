import Transclusion.Disk.Walk
import Transclusion.Path.Canonical
import Transclusion.Path.Parent

/-
  A tree of files with a working directory.

  Key definitions include:
    * `Transclusion.Disk`
    * `Transclusion.Disk.read`
    * `Transclusion.Disk.create`
    * `Transclusion.Disk.accept`
    * `Transclusion.Disk.write`
    * `Transclusion.Disk.makeDirectories`

  A path is given as text, as it is, and relative ones start
  from the working directory.
-/

------------------------------------------------------------
-- Disks
------------------------------------------------------------

namespace Transclusion

/-
  A tree of files and the working directory.  The names of a
  working directory that was taken away hold one that no
  path can spell.
-/
structure Disk where
  tree : Tree := {}
  directory : List String := []

namespace Disk

/- The working directory, while there is one. -/
def currentDirectory
    (disk : Disk) : Except Fault CanonicalPath :=
  if disk.tree.isDirectory disk.directory then
    .ok (.ofText ("/" ++ "/".intercalate disk.directory))
  else .error (.system .notFound)

/- Walk from the working directory. -/
def walk
    (disk : Disk)
    (purpose : Purpose)
    (path : String) : Except SystemFault Place :=
  disk.tree.walk purpose disk.directory path

/- Whether a path leads to a directory. -/
def isDirectory
    (disk : Disk)
    (path : String) : Bool :=
  match disk.walk .reach path with
  | .ok (.found _ .directory _) => true
  | _ => false

/- Make a directory the working directory. -/
def enter
    (disk : Disk)
    (path : String) : Except SystemFault Disk :=
  match disk.walk .reach path with
  | .error fault => .error fault
  | .ok (.found names .directory _) =>
      .ok { disk with directory := names }
  | .ok (.found _ _ _) => .error .notDirectory
  | .ok (.free _ _) => .error .notFound

end Disk

end Transclusion

------------------------------------------------------------
-- Reading
------------------------------------------------------------

namespace Transclusion

namespace Disk

/-
  The text that a node holds.  A device that takes all data
  has none.  One that refuses data gives zeros without end:
  no read of it has an outcome, and the empty text that
  stands for one here describes nothing.
-/
def nodeText : Node → Except Fault String
  | .file content =>
      match String.fromUTF8? content with
      | some text => .ok text
      | none => .error .notText
  | .directory => .error (.system .isDirectory)
  | .link _ => .error (.system .tooManyLinks)
  | .device _ => .ok ""

/- Read the text under a path. -/
def read
    (disk : Disk)
    (path : String) : Except Fault String :=
  if path.contains '\x00' then .error .nullInPath
  else
    match disk.walk .reach path with
    | .error fault => .error (.system fault)
    | .ok (.free _ _) => .error (.system .notFound)
    | .ok (.found _ node slash) =>
        if slash && !node.isDirectory then
          .error (.system .notDirectory)
        else nodeText node

end Disk

end Transclusion

------------------------------------------------------------
-- Writing
------------------------------------------------------------

namespace Transclusion

/- Where written data goes. -/
inductive Target where
  | file (names : List String)
  | device (takesData : Bool)
  deriving DecidableEq

namespace Disk

/- Put a node under names, in place of any other. -/
def put
    (disk : Disk)
    (names : List String)
    (node : Node) : Disk :=
  { disk with tree := disk.tree.put names node }

/-
  Open a file for writing, which makes it or leaves it
  empty.
-/
def create
    (disk : Disk)
    (path : String) : Except Fault (Disk × Target) :=
  if path.contains '\x00' then .error .nullInPath
  else
    match disk.walk .create path with
    | .error fault => .error (.system fault)
    | .ok (.free directory name) =>
        let names := directory ++ [name]
        .ok (disk.put names (.file .empty), .file names)
    | .ok (.found names node _) =>
        match node with
        | .file _ =>
            .ok (disk.put names (.file .empty), .file names)
        | .device takesData =>
            .ok (disk, .device takesData)
        | .directory => .error (.system .isDirectory)
        | .link _ => .error (.system .tooManyLinks)

/- Hand data over to an open file. -/
def accept
    (disk : Disk)
    (target : Target)
    (data : ByteArray) : Except SystemFault Disk :=
  match target with
  | .file names => .ok (disk.put names (.file data))
  | .device takesData =>
      if takesData || data.isEmpty then .ok disk
      else .error .noSpace

/- Write data to a file, and tell what went wrong. -/
def writeBytes
    (disk : Disk)
    (path : String)
    (data : ByteArray) : Disk × Except Fault Unit :=
  match disk.create path with
  | .error fault => (disk, .error fault)
  | .ok (opened, target) =>
      match opened.accept target data with
      | .error fault => (opened, .error (.system fault))
      | .ok disk => (disk, .ok ())

/- Write a text to a file. -/
def write
    (disk : Disk)
    (path text : String) : Disk × Except Fault Unit :=
  disk.writeBytes path text.toUTF8

end Disk

end Transclusion

------------------------------------------------------------
-- Directories and Links
------------------------------------------------------------

namespace Transclusion

namespace Disk

/- Make a node that holds no data where nothing is. -/
def make
    (disk : Disk)
    (path : String)
    (node : Node) : Except SystemFault Disk :=
  match disk.walk .entry path with
  | .error fault => .error fault
  | .ok (.found _ _ _) => .error .exists
  | .ok (.free directory name) =>
      .ok (disk.put (directory ++ [name]) node)

/- Make a directory in a directory that is there. -/
def makeDirectory
    (disk : Disk)
    (path : String) : Except SystemFault Disk :=
  disk.make path .directory

/-
  Make a directory, once a way to make its parent has been
  tried if that is missing.
-/
def makeWithParent
    (disk : Disk)
    (path : String)
    (makeParent : Disk × Except SystemFault Unit) :
    Disk × Except SystemFault Unit :=
  let retry (disk : Disk) :
      Disk × Except SystemFault Unit :=
    match disk.makeDirectory path with
    | .ok disk => (disk, .ok ())
    | .error fault =>
        if disk.isDirectory path then (disk, .ok ())
        else (disk, .error fault)
  match disk.makeDirectory path with
  | .error .notFound =>
      match makeParent with
      | (disk, .ok ()) => retry disk
      | (disk, .error fault) => (disk, .error fault)
  | _ => retry disk

/-
  Make a directory and those above it that are missing.
  Every parent is shorter than what it is the parent of.
-/
def makeDirectoriesWithin
    (disk : Disk) :
    Nat → String → Disk × Except SystemFault Unit
  | 0, _ => (disk, .ok ())
  | length + 1, path =>
      if path = "" then (disk, .ok ())
      else
        makeWithParent disk path
          (match parentPath? path with
          | none => (disk, .ok ())
          | some parent =>
              makeDirectoriesWithin disk length parent)

/- Make a directory and those above it that are missing. -/
def makeDirectories
    (disk : Disk)
    (path : String) : Disk × Except SystemFault Unit :=
  makeDirectoriesWithin disk (path.length + 1) path

/-
  The names of the working directory once names have been
  taken away.
-/
def leftWithout
    (directory removed : List String) : List String :=
  if removed.isPrefixOf directory then
    match removed.getLast? with
    | none => directory
    | some name =>
        removed.dropLast ++ (name ++ "/") ::
          directory.drop removed.length
  else directory

/- Take away what a path leads to, and all below it. -/
def remove
    (disk : Disk)
    (path : String) : Except SystemFault Disk :=
  match disk.walk .entry path with
  | .error fault => .error fault
  | .ok (.free _ _) => .error .notFound
  | .ok (.found names _ _) =>
      .ok
        { tree := disk.tree.erase names
          directory := leftWithout disk.directory names }

end Disk

end Transclusion
