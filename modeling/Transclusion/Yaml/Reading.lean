import Transclusion.Yaml.Document
import Transclusion.Yaml.Scalar

/-
  Reading the items of a document.

  Key definitions include:
    * `Transclusion.Yaml.Read`
    * `Transclusion.Yaml.Read.next`
    * `Transclusion.Yaml.Read.follow`
    * `Transclusion.Yaml.Read.ignore`
    * `Transclusion.Yaml.Read.wholeText`

  An alias is followed by reading the items of its node over
  again.  A text may follow only so many aliases for its
  length, which keeps small texts from growing large.
-/

------------------------------------------------------------
-- Elementary Steps
------------------------------------------------------------

namespace Transclusion

namespace Yaml

/- What is left of a document, and the aliases followed. -/
structure ReadState where
  rest : List Item
  followed : Nat := 0

/- Reading of items that may fail. -/
abbrev Read :=
  StateT ReadState (Except ReadError)

namespace Read

/- The next item, or the error in its place. -/
def peek
    (document : Document) : Read Item := do
  match (← get).rest with
  | item :: _ => return item
  | [] => throw (document.error.getD .endOfText)

/- Take the next item. -/
def next
    (document : Document) : Read Item := do
  let item ← peek document
  modify fun state => { state with rest := state.rest.tail }
  return item

/- Say where an error arose, unless that is known. -/
def located
    {α : Type}
    (mark : Mark)
    (place : Place)
    (read : Read α) : Read α :=
  fun state =>
    (read state).mapError (ReadError.located mark place)

/- Complain without saying where. -/
def complain
    {α : Type}
    (complaint : Complaint) : Read α :=
  throw (.misfit complaint none)

/-
  Read the node that an anchor stands for, and come back.
  At most a hundred aliases may be followed for each item.
-/
def follow
    {α : Type}
    (document : Document)
    (number : Nat)
    (read : Read α) : Read α := do
  let state ← get
  let followed := state.followed + 1
  if document.size * 100 < followed then
    throw .tooManyAliases
  match document.anchors.lookup number with
  | none => throw .endOfText
  | some before =>
      set
        { rest := document.items.drop before
          followed := followed : ReadState }
      let result ← read
      modify fun after => { after with rest := state.rest }
      return result

/-
  Take the next item, or the first item of the node that it
  is an alias of, and read on from there.
-/
def content
    {α : Type}
    (document : Document)
    (place : Place)
    (read : Place → Item → Read α) : Read α := do
  let item ← next document
  match item.kind with
  | .aliasOf number =>
      located item.mark place
        (follow document number do
          read (.referent place) (← next document))
  | _ => read place item

/- Leave a node behind that is nested so deep. -/
def ignoreFrom
    (document : Document) : Nat → Nat → Read Unit
  | 0, _ => return ()
  | fuel + 1, depth => do
      let depth :=
        match (← next document).kind with
        | .sequenceStart _ => depth + 1
        | .mappingStart _ => depth + 1
        | .sequenceEnd => depth - 1
        | .mappingEnd => depth - 1
        | _ => depth
      if 0 < depth then
        ignoreFrom document fuel depth

/- Leave a node behind, whatever it is. -/
def ignore
    (document : Document) : Read Unit := do
  ignoreFrom document (document.size + 1) 0

/-
  Read the only document of a text.  What the reading finds
  wrong comes before what is wrong behind it.
-/
def wholeText
    {α : Type}
    (read : Document → Read α)
    (text : String) : Except ReadError α := do
  let (document, isLast) := Document.ofText text.toList
  let (result, _) ←
    (read document).run { rest := document.items }
  match document.error with
  | some error => throw error
  | none =>
      if isLast then return result
      else throw .severalDocuments

end Read

/- Whether a document holds no node at all. -/
def Document.isEmpty
    (document : Document) : Bool :=
  document.items.isEmpty && document.error.isNone

end Yaml

end Transclusion
