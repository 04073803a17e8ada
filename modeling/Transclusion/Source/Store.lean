import Transclusion.Path.Canonical
import Transclusion.Source.Fault

/-
  Documents kept in memory, by the components of their
  paths.

  Key definitions include:
    * `Transclusion.Store`
    * `Transclusion.Store.insert`
    * `Transclusion.Store.find?`
    * `Transclusion.Store.load`

  Key theorems include:
    * `Transclusion.Store.find?_insert_self`
    * `Transclusion.Store.find?_insert_of_ne`
-/

------------------------------------------------------------
-- Stores
------------------------------------------------------------

namespace Transclusion

/- Texts under the components of their paths. -/
structure Store where
  documents : List (List Component × String) := []
  deriving DecidableEq

namespace Store

/- The number of documents. -/
def size
    (store : Store) : Nat :=
  store.documents.length

/- The text under the components of a path. -/
def find?
    (store : Store)
    (key : List Component) : Option String :=
  store.documents.lookup key

/- Put a text under components, in place of any other. -/
def put
    (key : List Component)
    (text : String) :
    List (List Component × String) →
      List (List Component × String)
  | [] => [(key, text)]
  | (other, old) :: rest =>
      if key = other then (key, text) :: rest
      else (other, old) :: put key text rest

/- Keep a text under a path, in place of any other. -/
def insert
    (store : Store)
    (path text : String) : Store :=
  ⟨put (components path) text store.documents⟩

/- The store of documents, the last one under each path. -/
def ofList
    (documents : List (String × String)) : Store :=
  documents.foldl
    (fun store document =>
      store.insert document.1 document.2) {}

/- The text under a path. -/
def loadText
    (store : Store)
    (path : String) : Except Fault String :=
  match store.find? (components path) with
  | some text => .ok text
  | none => .error (.notRegistered path)

/- The text of a document. -/
def load
    (store : Store)
    (path : CanonicalPath) : Except Fault String :=
  match store.find? path.components with
  | some text => .ok text
  | none => .error (.notRegistered path.text)

/- A text put under components is found there. -/
theorem lookup_put_self
    (key : List Component)
    (text : String)
    (documents : List (List Component × String)) :
    (put key text documents).lookup key = some text := by
  induction documents with
  | nil => simp [put]
  | cons document rest ih =>
      obtain ⟨other, old⟩ := document
      by_cases h : key = other
      · simp [put, h]
      · have h' : (key == other) = false := by simp [h]
        simpa [put, h, List.lookup_cons, h'] using ih

/- Other texts stay where they are. -/
theorem lookup_put_of_ne
    {key wanted : List Component}
    (text : String)
    (documents : List (List Component × String))
    (hne : wanted ≠ key) :
    (put key text documents).lookup wanted =
      documents.lookup wanted := by
  have hw : (wanted == key) = false := by simp [hne]
  induction documents with
  | nil => simp [put, List.lookup_cons, hw]
  | cons document rest ih =>
      obtain ⟨other, old⟩ := document
      by_cases h : key = other
      · subst h
        simp [put, List.lookup_cons, hw]
      · simp [put, h, List.lookup_cons, ih]

/- A text kept under a path is found there. -/
theorem find?_insert_self
    (store : Store)
    (path text : String) :
    (store.insert path text).find? (components path) =
      some text :=
  lookup_put_self _ _ _

/- Other texts are found where they were. -/
theorem find?_insert_of_ne
    (store : Store)
    (path text : String)
    {key : List Component}
    (hne : key ≠ components path) :
    (store.insert path text).find? key = store.find? key :=
  lookup_put_of_ne _ _ hne

end Store

end Transclusion
