import Transclusion.Disk.Disk
import Transclusion.Resolve.Resolve

/-
  Resolution of documents kept on a disk.

  Key definitions include:
    * `Transclusion.Disk.resolver`

  Only paths within a limit can be read, and there are fewer
  of them than octets can spell, which bounds every chain of
  documents.
-/

------------------------------------------------------------
-- Resolvers
------------------------------------------------------------

namespace Transclusion

/-
  The resolver of the documents that a reader finds from a
  working directory.
-/
def Resolver.ofReader
    (read : String → Except Fault String)
    (directory : Except Fault CanonicalPath)
    (config : Config) : Resolver where
  source path := read path.text
  directory := directory
  config := config
  bound := Nat.pow 256 (Tree.pathLimit + 1)

namespace Disk

/- The resolver of the documents on a disk. -/
def resolver
    (disk : Disk)
    (config : Config) : Resolver :=
  .ofReader disk.read disk.currentDirectory config

end Disk

end Transclusion
