import Transclusion.Proofs.Yaml.ReachEvents
import Transclusion.Yaml.Node.OfText

/-
  How far down the errors of a text are.

  Key definitions include:
    * `Transclusion.Yaml.Document.IsWithin`
    * `Transclusion.Yaml.Read.within`

  Key theorems include:
    * `Transclusion.Yaml.Document.isWithin_ofText`
    * `Transclusion.Yaml.Node.isWithin_of_ofText`

  A complaint is located at the mark of an item, and an
  alias is followed among the items of the document.
-/

------------------------------------------------------------
-- Documents
------------------------------------------------------------

namespace Transclusion

namespace Yaml

/- An error that is within so many lines, if it is anywhere. -/
def ReadError.IsWithin
    (error : ReadError)
    (limit : Nat) : Prop :=
  ∀ mark, error.mark? = some mark → mark.IsWithin limit

/- What is nowhere is not outside of the lines. -/
theorem ReadError.isWithin_of_none
    {error : ReadError}
    (hNone : error.mark? = none)
    (limit : Nat) :
    error.IsWithin limit := by
  intro mark hMark
  rw [hNone] at hMark
  cases hMark

/- Items and an error that are within so many lines. -/
structure Document.IsWithin
    (document : Document)
    (limit : Nat) : Prop where
  items :
    ∀ item ∈ document.items, item.mark.IsWithin limit
  error :
    ∀ error, document.error = some error →
      error.IsWithin limit

namespace Document

variable {limit : Nat}

/- A draft is finished within the lines of its items. -/
theorem Draft.isWithin_finish
    {draft : Draft}
    {error : Option ReadError}
    (hItems :
      ∀ item ∈ draft.items, item.mark.IsWithin limit)
    (hError : ∀ one, error = some one → one.IsWithin limit) :
    (draft.finish error).IsWithin limit := by
  refine ⟨?_, hError⟩
  intro item hItem
  exact hItems item (List.mem_reverse.mp hItem)

/- The items of a draft with an anchor are the same. -/
theorem Draft.items_bind
    (draft : Draft)
    (anchor : Option (List Char)) :
    (draft.bind anchor).items = draft.items := by
  cases anchor with
  | none => rfl
  | some name => rfl

/- The first document is within the lines of its events. -/
theorem isWithin_ofEvents
    {error : Option SyntaxError}
    {events : List Event}
    {draft : Draft}
    (hError :
      ∀ one, error = some one → one.mark.IsWithin limit)
    (hEvents : ∀ event ∈ events, event.mark.IsWithin limit)
    (hItems :
      ∀ item ∈ draft.items, item.mark.IsWithin limit) :
    (ofEvents error events draft).1.IsWithin limit := by
  have hNone :
      ∀ one, (none : Option ReadError) = some one →
        one.IsWithin limit := by
    intro one hNone
    cases hNone
  induction events generalizing draft with
  | nil =>
      apply Draft.isWithin_finish hItems
      intro one hOne
      rcases Option.map_eq_some_iff.mp hOne with
        ⟨problem, hProblem, rfl⟩
      intro mark hMark
      cases hMark
      exact hError problem hProblem
  | cons event rest ih =>
      rw [List.forall_mem_cons] at hEvents
      rcases event with ⟨kind, mark⟩
      have hAdd
          (draft' : Draft)
          (hSame : draft'.items = draft.items)
          (kind : ItemKind) :
          (ofEvents error rest
              (draft'.add kind mark)).1.IsWithin limit := by
        apply ih hEvents.2
        intro item hItem
        rcases List.mem_cons.mp hItem with rfl | hOld
        · exact hEvents.1
        · rw [hSame] at hOld
          exact hItems item hOld
      cases kind with
      | streamStart => exact ih hEvents.2 hItems
      | streamEnd => exact Draft.isWithin_finish hItems hNone
      | documentStart => exact ih hEvents.2 hItems
      | documentEnd =>
          exact Draft.isWithin_finish hItems hNone
      | aliasOf name =>
          unfold ofEvents
          dsimp only
          split
          · exact hAdd draft rfl _
          · apply Draft.isWithin_finish hItems
            intro one hOne
            cases hOne
            intro other hOther
            cases hOther
            exact hEvents.1
      | scalar properties text style =>
          exact hAdd _ (draft.items_bind _) _
      | sequenceStart properties =>
          exact hAdd _ (draft.items_bind _) _
      | sequenceEnd => exact hAdd draft rfl _
      | mappingStart properties =>
          exact hAdd _ (draft.items_bind _) _
      | mappingEnd => exact hAdd draft rfl _

/- The first document of a text is within its lines. -/
theorem isWithin_ofText
    (text : List Char) :
    (ofText text).1.IsWithin (linesFrom false text) := by
  have hEvents := EventStream.isWithin_ofText text
  apply isWithin_ofEvents hEvents.error hEvents.events
  intro item hNone
  cases hNone

end Document

end Yaml

end Transclusion

------------------------------------------------------------
-- Reading
------------------------------------------------------------

namespace Transclusion

namespace Yaml

/- Items still to be read that are within so many lines. -/
def ReadState.IsWithin
    (state : ReadState)
    (limit : Nat) : Prop :=
  ∀ item ∈ state.rest, item.mark.IsWithin limit

namespace Read

variable {α : Type}
variable {limit : Nat}
variable {state : ReadState}
variable {fine : α → ReadState → Prop}

/-
  A reading stays within so many lines, and what is at fault
  is within them too.
-/
@[reducible]
def within
    (limit : Nat) : Guard ReadError ReadState where
  kept state := state.IsWithin limit
  fault error := error.IsWithin limit

/- A reading is located within the lines. -/
theorem keeps_located
    {mark : Mark}
    {read : Read α}
    (hMark : mark.IsWithin limit)
    (hRead : Keeps (within limit) read state fine)
    (place : Place) :
    Keeps (within limit) (located mark place read) state
      fine := by
  unfold Keeps Meets at hRead ⊢
  unfold located
  cases hRun : read state with
  | ok pair =>
      rw [hRun] at hRead
      exact hRead
  | error error =>
      rw [hRun] at hRead
      change (error.located mark place).IsWithin limit
      unfold ReadError.located
      split
      · intro other hOther
        cases hOther
        exact hMark
      · exact hRead

variable {document : Document}
variable (hDocument : document.IsWithin limit)
variable (hState : state.IsWithin limit)

include hDocument hState

/- The next item is within the lines. -/
theorem keeps_peek :
    Keeps (within limit) (peek document) state
      fun item _ => item.mark.IsWithin limit := by
  unfold peek
  rw [keeps_get]
  split
  · rename_i item rest hRest
    refine keeps_pure hState ?_
    apply hState
    rw [hRest]
    exact List.mem_cons_self
  · change (document.error.getD .endOfText).IsWithin limit
    cases hError : document.error with
    | none => exact ReadError.isWithin_of_none rfl limit
    | some error => exact hDocument.error error hError

/- The item that is taken is within the lines. -/
theorem keeps_next :
    Keeps (within limit) (next document) state
      fun item _ => item.mark.IsWithin limit := by
  unfold next
  apply (keeps_peek hDocument hState).bind
  intro item after hAfter hItem
  refine ⟨?_, hItem⟩
  intro other hOther
  exact hAfter other (List.mem_of_mem_tail hOther)

/- An alias is followed within the lines. -/
theorem keeps_follow
    {read : Read α}
    (hRead :
      ∀ before : ReadState, before.IsWithin limit →
        Keeps (within limit) read before fun _ _ => True)
    (number : Nat) :
    Keeps (within limit) (follow document number read) state
      fun _ _ => True := by
  unfold follow
  rw [keeps_get]
  dsimp only
  split
  · exact ReadError.isWithin_of_none rfl limit
  · split
    · exact ReadError.isWithin_of_none rfl limit
    · rename_i before hLookup
      have hBefore :
          ReadState.IsWithin
            { rest := document.items.drop before
              followed := state.followed + 1 }
            limit := by
        intro item hItem
        exact
          hDocument.items item (List.mem_of_mem_drop hItem)
      rw [keeps_set]
      apply (hRead _ hBefore).bind
      intro result after _hAfter _
      exact ⟨hState, trivial⟩

/- A node is read within the lines, or where its alias leads. -/
theorem keeps_content
    {read : Place → Item → Read α}
    (hRead :
      ∀ (place : Place) (item : Item) (before : ReadState),
        item.mark.IsWithin limit → before.IsWithin limit →
          Keeps (within limit) (read place item) before
            fun _ _ => True)
    (place : Place) :
    Keeps (within limit) (content document place read) state
      fun _ _ => True := by
  unfold content
  apply (keeps_next hDocument hState).bind
  intro item after hAfter hItem
  split
  · apply keeps_located hItem
    apply keeps_follow hDocument hAfter
    intro before hBefore
    apply (keeps_next hDocument hBefore).bind
    intro target behind hBehind hTarget
    exact hRead _ target behind hTarget hBehind
  · exact hRead place item after hItem hAfter

end Read

end Yaml

end Transclusion

------------------------------------------------------------
-- Trees
------------------------------------------------------------

namespace Transclusion

namespace Yaml

namespace Node

variable {limit : Nat}
variable {document : Document}
variable {state : ReadState}
variable (hDocument : document.IsWithin limit)

include hDocument

/- The items of a sequence are read within the lines. -/
theorem keeps_readItems
    {inner : Place → Read Node}
    (hInner :
      ∀ (place : Place) (before : ReadState),
        before.IsWithin limit →
          Keeps (Read.within limit) (inner place) before
            fun _ _ => True)
    (hState : state.IsWithin limit)
    (place : Place)
    (fuel index : Nat) :
    Keeps (Read.within limit)
      (readItems document inner place fuel index) state
      fun _ _ => True := by
  induction fuel generalizing state index with
  | zero => exact keeps_pure hState trivial
  | succ fuel ih =>
      unfold readItems
      apply (Read.keeps_peek hDocument hState).bind
      intro item after hAfter _hItem
      split
      · apply (Read.keeps_next hDocument hAfter).bind
        intro _ last hLast _
        exact keeps_pure hLast trivial
      · apply (hInner _ after hAfter).bind
        intro node behind hBehind _
        apply (ih hBehind (index + 1)).bind
        intro more last hLast _
        exact keeps_pure hLast trivial

/- The entries of a mapping are read within the lines. -/
theorem keeps_readEntries
    {inner : Place → Read Node}
    (hInner :
      ∀ (place : Place) (before : ReadState),
        before.IsWithin limit →
          Keeps (Read.within limit) (inner place) before
            fun _ _ => True)
    (hState : state.IsWithin limit)
    (place : Place)
    (fuel : Nat)
    (seen : List Node) :
    Keeps (Read.within limit)
      (readEntries document inner place fuel seen) state
      fun _ _ => True := by
  induction fuel generalizing state seen with
  | zero => exact keeps_pure hState trivial
  | succ fuel ih =>
      unfold readEntries
      apply (Read.keeps_peek hDocument hState).bind
      intro item after hAfter _hItem
      split
      · apply (Read.keeps_next hDocument hAfter).bind
        intro _ last hLast _
        exact keeps_pure hLast trivial
      · apply (hInner _ after hAfter).bind
        intro key behind hBehind _
        split
        · exact ReadError.isWithin_of_none rfl limit
        · apply (hInner _ behind hBehind).bind
          intro value next hNext _
          apply (ih hNext _).bind
          intro more last hLast _
          exact keeps_pure hLast trivial

/- A tree is read within the lines, as those inside it are. -/
theorem keeps_readContent
    {inner : Option (Place → Read Node)}
    (hInner :
      ∀ read, inner = some read →
        ∀ (place : Place) (before : ReadState),
          before.IsWithin limit →
            Keeps (Read.within limit) (read place) before
              fun _ _ => True)
    {item : Item}
    (hItem : item.mark.IsWithin limit)
    (hState : state.IsWithin limit)
    (place : Place) :
    Keeps (Read.within limit)
      (readContent document inner place item) state
      fun _ _ => True := by
  have hTooDeep :
      (ReadError.tooDeep item.mark).IsWithin limit := by
    intro mark hMark
    cases hMark
    exact hItem
  unfold readContent
  apply Read.keeps_located hItem
  dsimp only
  split
  · split
    · exact keeps_pure hState trivial
    · exact ReadError.isWithin_of_none rfl limit
  · cases inner with
    | none => exact hTooDeep
    | some read =>
        simp only [pure_bind]
        apply
          (keeps_readItems hDocument (hInner read rfl) hState
            place _ 0).bind
        intro items last hLast _
        exact keeps_pure hLast trivial
  · cases inner with
    | none => exact hTooDeep
    | some read =>
        simp only [pure_bind]
        apply
          (keeps_readEntries hDocument (hInner read rfl)
            hState place _ []).bind
        intro entries last hLast _
        exact keeps_pure hLast trivial
  · exact ReadError.isWithin_of_none rfl limit

/- A tree is read within the lines. -/
theorem keeps_read
    (hState : state.IsWithin limit)
    (depth : Nat)
    (place : Place) :
    Keeps (Read.within limit) (read document depth place) state
      fun _ _ => True := by
  induction depth generalizing state place with
  | zero =>
      apply Read.keeps_content hDocument hState
      intro place item before hItem hBefore
      apply keeps_readContent hDocument _ hItem hBefore
      intro read hNone
      cases hNone
  | succ depth ih =>
      apply Read.keeps_content hDocument hState
      intro place item before hItem hBefore
      apply keeps_readContent hDocument _ hItem hBefore
      intro read hSome
      cases hSome
      intro place before hBefore
      exact ih hBefore place

omit hDocument in
/-
  What is wrong with a text is on one of its lines or on the
  one right behind the last.
-/
theorem isWithin_of_ofText
    {text : String}
    {error : ReadError}
    (hError : ofText text = .error error) :
    error.IsWithin (linesFrom false text.toList) := by
  have hDocument := Document.isWithin_ofText text.toList
  unfold ofText Read.wholeText at hError
  generalize Document.ofText text.toList = whole
    at hError hDocument
  rcases whole with ⟨document, isLast⟩
  have hState :
      ReadState.IsWithin { rest := document.items }
        (linesFrom false text.toList) :=
    hDocument.items
  have hRead :
      Keeps (Read.within (linesFrom false text.toList))
        (if document.isEmpty then return .null
          else read document maxDepth .root)
        { rest := document.items } fun _ _ => True := by
    split
    · exact keeps_pure hState trivial
    · exact keeps_read hDocument hState maxDepth .root
  unfold Keeps Meets at hRead
  change
    Except.bind
        ((if document.isEmpty then pure .null
            else read document maxDepth .root : Read Node)
          { rest := document.items }) _ =
      .error error at hError
  cases hRun :
      (if document.isEmpty then pure .null
        else read document maxDepth .root : Read Node)
        { rest := document.items } with
  | error problem =>
      rw [hRun] at hError hRead
      cases hError
      exact hRead
  | ok pair =>
      rw [hRun] at hError
      cases hKept : document.error with
      | some problem =>
          simp only [Except.bind, hKept] at hError
          cases hError
          exact hDocument.error _ hKept
      | none =>
          simp only [Except.bind, hKept] at hError
          cases isLast with
          | true => cases hError
          | false =>
              cases hError
              exact ReadError.isWithin_of_none rfl _

end Node

end Yaml

end Transclusion
