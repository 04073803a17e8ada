import Transclusion.Resolve.Resolve
import Transclusion.Source.Store

/-
  Resolution of documents kept in memory.

  Key definitions include:
    * `Transclusion.Store.resolver`

  A chain of documents ends where one is met again or is
  missing, so one more document than are kept is the most
  that can be nested.
-/

------------------------------------------------------------
-- Resolvers
------------------------------------------------------------

namespace Transclusion

namespace Store

/- The resolver of the documents of a store. -/
def resolver
    (store : Store)
    (config : Config) : Resolver where
  source := store.load
  directory := .ok CanonicalPath.root
  config := config
  bound := store.size + 1

end Store

end Transclusion
