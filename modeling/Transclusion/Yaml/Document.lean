import Transclusion.Yaml.Event.Stream
import Transclusion.Reading.Complaint

/-
  The first document of a YAML text, with its aliases bound,
  and what can go wrong in reading it.

  Key definitions include:
    * `Transclusion.Yaml.Item`
    * `Transclusion.Yaml.Document`
    * `Transclusion.Yaml.Document.ofText`
    * `Transclusion.Yaml.ReadError`
    * `Transclusion.Yaml.ReadError.message`

  An anchor gets the number of names known before it, and
  the last node anchored under a number answers for it.
-/

------------------------------------------------------------
-- Errors
------------------------------------------------------------

namespace Transclusion

namespace Yaml

/-
  A place in a tree, as a path from its root.  A referent is
  what the alias at a place stands for.
-/
inductive Place where
  | root
  | item (parent : Place) (index : Nat)
  | entry (parent : Place) (key : String)
  | unknown (parent : Place)
  | referent (parent : Place)

namespace Place

/- The text of a place. -/
def text : Place → String
  | root => "."
  | item parent index =>
      parent.text ++ "[" ++ integerText index ++ "]"
  | entry root key => key
  | entry parent key => parent.text ++ "." ++ key
  | unknown root => "?"
  | unknown parent => parent.text ++ ".?"
  | referent parent => parent.text

end Place

/- Where a complaint was made. -/
structure Position where
  place : String
  mark : Mark

/- Why a document cannot be read. -/
inductive ReadError where
  | malformed (error : SyntaxError)
  | unknownAnchor (mark : Mark)
  | endOfText
  | severalDocuments
  | tooDeep (mark : Mark)
  | tooManyAliases
  | misfit
      (complaint : Complaint)
      (position : Option Position)

namespace ReadError

/- Where the error is, if it is known. -/
def mark? : ReadError → Option Mark
  | malformed error => some error.mark
  | unknownAnchor mark => some mark
  | tooDeep mark => some mark
  | misfit _ position => position.map (·.mark)
  | _ => none

/- What is wrong, without a mark. -/
def problemText : ReadError → String
  | malformed error => error.message
  | unknownAnchor _ => "unknown anchor"
  | endOfText => "EOF while parsing a value"
  | severalDocuments =>
      "deserializing from YAML containing more than one " ++
        "document is not supported"
  | tooDeep _ => "recursion limit exceeded"
  | tooManyAliases => "repetition limit exceeded"
  | misfit complaint position =>
      let place := (position.map (·.place)).getD "."
      (if place = "." then "" else place ++ ": ") ++
        complaint.message Wording.text

/-
  What is said about the error.  Errors of notation name
  their marks themselves.
-/
def message
    (error : ReadError) : String :=
  match error, error.mark? with
  | malformed _, _ => error.problemText
  | _, some mark =>
      if mark.isStart then error.problemText
      else error.problemText ++ " at " ++ mark.text
  | _, none => error.problemText

/- The error with a position, unless it has one. -/
def located
    (mark : Mark)
    (place : Place) : ReadError → ReadError
  | misfit complaint none =>
      misfit complaint (some ⟨place.text, mark⟩)
  | error => error

end ReadError

end Yaml

end Transclusion

------------------------------------------------------------
-- Documents
------------------------------------------------------------

namespace Transclusion

namespace Yaml

/- What an item of a document is. -/
inductive ItemKind where
  | aliasOf (number : Nat)
  | scalar
      (tag : Option TagText)
      (text : List Char)
      (style : ScalarStyle)
  | sequenceStart (tag : Option TagText)
  | sequenceEnd
  | mappingStart (tag : Option TagText)
  | mappingEnd
  deriving DecidableEq

/- An item of a document and the mark at which it begins. -/
structure Item where
  kind : ItemKind
  mark : Mark
  deriving DecidableEq

/-
  The items of a document and their number, the error behind
  them if there is one, and for the numbers of anchors how
  many items stand before their nodes, the last one first.
-/
structure Document where
  items : List Item
  size : Nat
  error : Option ReadError := none
  anchors : List (Nat × Nat) := []

namespace Document

/- What is known while a document is put together. -/
structure Draft where
  items : List Item := []
  size : Nat := 0
  names : List (List Char × Nat) := []
  anchors : List (Nat × Nat) := []

namespace Draft

/- Give an anchor, if there is one, its number. -/
def bind
    (draft : Draft) : Option (List Char) → Draft
  | none => draft
  | some name =>
      let known := draft.names.filter (·.1 ≠ name)
      let number := draft.names.length
      { draft with
        names := (name, number) :: known
        anchors := (number, draft.size) ::
          draft.anchors }

/- Add an item. -/
def add
    (draft : Draft)
    (kind : ItemKind)
    (mark : Mark) : Draft :=
  { draft with
    items := ⟨kind, mark⟩ :: draft.items
    size := draft.size + 1 }

/- The document so far. -/
def finish
    (draft : Draft)
    (error : Option ReadError) : Document :=
  { items := draft.items.reverse
    size := draft.size
    error := error
    anchors := draft.anchors }

end Draft

/-
  The first document of a stream, and whether the stream
  ends with it.
-/
def ofEvents
    (error : Option SyntaxError) :
    List Event → Draft → Document × Bool
  | [], draft =>
      (draft.finish (error.map ReadError.malformed), true)
  | event :: rest, draft =>
      let mark := event.mark
      match event.kind with
      | .streamStart => ofEvents error rest draft
      | .streamEnd => (draft.finish none, true)
      | .documentStart => ofEvents error rest draft
      | .documentEnd =>
          let last :=
            match rest with
            | ⟨.streamEnd, _⟩ :: _ => true
            | _ => false
          (draft.finish none, last)
      | .aliasOf name =>
          match draft.names.lookup name with
          | some number =>
              ofEvents error rest
                (draft.add (.aliasOf number) mark)
          | none =>
              (draft.finish
                (some (.unknownAnchor mark)), false)
      | .scalar properties text style =>
          ofEvents error rest
            ((draft.bind properties.anchor).add
              (.scalar properties.tag text style) mark)
      | .sequenceStart properties =>
          ofEvents error rest
            ((draft.bind properties.anchor).add
              (.sequenceStart properties.tag) mark)
      | .sequenceEnd =>
          ofEvents error rest (draft.add .sequenceEnd mark)
      | .mappingStart properties =>
          ofEvents error rest
            ((draft.bind properties.anchor).add
              (.mappingStart properties.tag) mark)
      | .mappingEnd =>
          ofEvents error rest (draft.add .mappingEnd mark)

/- The first document of a text. -/
def ofText
    (text : List Char) : Document × Bool :=
  let stream := EventStream.ofText text
  ofEvents stream.error stream.events {}

end Document

end Yaml

end Transclusion
