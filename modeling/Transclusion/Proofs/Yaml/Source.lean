import Transclusion.Proofs.Yaml.Nesting

/-
  Trees as their texts write them.

  Key definitions include:
    * `Transclusion.Yaml.Source`
    * `Transclusion.Yaml.Source.node?`
    * `Transclusion.Yaml.Document.Holds`
    * `Transclusion.Yaml.Writes`

  Key theorems include:
    * `Transclusion.Yaml.Document.Holds.unique`
    * `Transclusion.Yaml.Node.isSourced_read`
    * `Transclusion.parseText_eq_ok_cases`

  What a document holds is one tree for all that read it:
  they differ in what they make of its tags and its styles,
  and in the parts of it that they leave out.
-/

------------------------------------------------------------
-- Written Trees
------------------------------------------------------------

namespace Transclusion

namespace Yaml

/-
  A tree as it is written: with its tags, and with the
  styles of its scalars.  Aliases are written out.
-/
inductive Source where
  | scalar
      (tag : Option TagText)
      (text : List Char)
      (style : ScalarStyle)
  | sequence
      (tag : Option TagText)
      (items : List Source)
  | mapping
      (tag : Option TagText)
      (entries : List (Source × Source))

namespace Node

/- A tree under the name that its tag gives it, if any. -/
def named
    (tag : Option TagText)
    (node : Node) : Node :=
  match TagText.local? tag with
  | some name => .tagged name node
  | none => node

end Node

/-
  What a scalar stands for in a tree.  A tag that names the
  tree does not count.
-/
def Scalar.ofWritten
    (tag : Option TagText)
    (text : List Char)
    (style : ScalarStyle) : Except Complaint Scalar :=
  resolve (if (TagText.local? tag).isSome then none else tag)
    text style

/- The tree of a scalar as it is written. -/
def Node.ofWritten
    (tag : Option TagText)
    (text : List Char)
    (style : ScalarStyle) : Except Complaint Node :=
  ((Scalar.ofWritten tag text style).bind ofScalar).map
    (named tag)

namespace Source

/- The text of a scalar, whatever its tag and its style. -/
def string? : Source → Option String
  | scalar _ text _ => some (String.ofList text)
  | _ => none

mutual

/- The tree that is written, if its scalars fit their tags. -/
def node? : Source → Option Node
  | scalar tag text style =>
      (Node.ofWritten tag text style).toOption
  | sequence tag items =>
      (nodes? items).map fun nodes =>
        .named tag (.sequence nodes)
  | mapping tag entries =>
      (entryNodes? entries).map fun entries =>
        .named tag (.mapping entries)

/- The trees of a list. -/
def nodes? : List Source → Option (List Node)
  | [] => some []
  | item :: rest => do
      let node ← node? item
      let more ← nodes? rest
      return node :: more

/- The trees of entries. -/
def entryNodes? :
    List (Source × Source) → Option (List (Node × Node))
  | [] => some []
  | (key, value) :: rest => do
      let name ← node? key
      let node ← node? value
      let more ← entryNodes? rest
      return (name, node) :: more

end

/- The structured value that is written, if there is one. -/
def value?
    (source : Source) : Option Value :=
  source.node?.bind fun node => node.toValue.toOption

/- The text that is written as a key, if there is one. -/
def keyText?
    (source : Source) : Option String :=
  source.node?.bind fun node => node.keyText.toOption

end Source

end Yaml

end Transclusion

------------------------------------------------------------
-- What Documents Hold
------------------------------------------------------------

namespace Transclusion

namespace Yaml

/-
  What items can hold: a tree or the alias of one, a tree in
  its place, or what is left of a sequence or a mapping.
-/
inductive Held where
  | node (source : Source)
  | content (source : Source)
  | items (items : List Source)
  | entries (entries : List (Source × Source))

/- Whether two things held are of one kind. -/
def Held.IsLike : Held → Held → Prop
  | node _, node _ => True
  | content _, content _ => True
  | items _, items _ => True
  | entries _, entries _ => True
  | _, _ => False

/-
  What items of a document hold, the items behind that, and
  how many aliases there are in it.
-/
inductive Document.Holds
    (document : Document) :
    List Item → Held → List Item → Nat → Prop where
  | here
      {items after : List Item}
      {source : Source}
      {count : Nat}
      (hContent :
        Holds document items (.content source) after count) :
      Holds document items (.node source) after count
  | aliasOf
      {mark : Mark}
      {number start : Nat}
      {rest behind : List Item}
      {source : Source}
      {count : Nat}
      (hAnchor :
        document.anchors.lookup number = some start)
      (hContent :
        Holds document (document.items.drop start)
          (.content source) behind count) :
      Holds document (⟨.aliasOf number, mark⟩ :: rest)
        (.node source) rest (count + 1)
  | scalar
      {tag : Option TagText}
      {text : List Char}
      {style : ScalarStyle}
      {mark : Mark}
      {rest : List Item} :
      Holds document (⟨.scalar tag text style, mark⟩ :: rest)
        (.content (.scalar tag text style)) rest 0
  | sequence
      {tag : Option TagText}
      {mark : Mark}
      {rest after : List Item}
      {items : List Source}
      {count : Nat}
      (hItems : Holds document rest (.items items) after count) :
      Holds document (⟨.sequenceStart tag, mark⟩ :: rest)
        (.content (.sequence tag items)) after count
  | mapping
      {tag : Option TagText}
      {mark : Mark}
      {rest after : List Item}
      {entries : List (Source × Source)}
      {count : Nat}
      (hEntries :
        Holds document rest (.entries entries) after count) :
      Holds document (⟨.mappingStart tag, mark⟩ :: rest)
        (.content (.mapping tag entries)) after count
  | noItems
      {mark : Mark}
      {rest : List Item} :
      Holds document (⟨.sequenceEnd, mark⟩ :: rest)
        (.items []) rest 0
  | item
      {items middle after : List Item}
      {source : Source}
      {rest : List Source}
      {count more : Nat}
      (hFirst :
        Holds document items (.node source) middle count)
      (hRest : Holds document middle (.items rest) after more) :
      Holds document items (.items (source :: rest)) after
        (count + more)
  | noEntries
      {mark : Mark}
      {rest : List Item} :
      Holds document (⟨.mappingEnd, mark⟩ :: rest)
        (.entries []) rest 0
  | entry
      {items inner middle after : List Item}
      {key value : Source}
      {rest : List (Source × Source)}
      {count more others : Nat}
      (hKey : Holds document items (.node key) inner count)
      (hValue :
        Holds document inner (.node value) middle more)
      (hRest :
        Holds document middle (.entries rest) after others) :
      Holds document items (.entries ((key, value) :: rest))
        after (count + more + others)

end Yaml

end Transclusion

------------------------------------------------------------
-- Progress and Uniqueness
------------------------------------------------------------

namespace Transclusion

namespace Yaml

variable {document : Document}

/- Whatever is held takes up an item. -/
theorem Document.Holds.length_lt
    {items after : List Item}
    {held : Held}
    {count : Nat}
    (hHolds : document.Holds items held after count) :
    after.length < items.length := by
  induction hHolds with
  | here _ ih => exact ih
  | aliasOf _ _ _ => exact Nat.lt_succ_self _
  | scalar => exact Nat.lt_succ_self _
  | sequence _ ih => exact Nat.lt_succ_of_lt ih
  | mapping _ ih => exact Nat.lt_succ_of_lt ih
  | noItems => exact Nat.lt_succ_self _
  | item _ _ ihFirst ihRest => exact ihRest.trans ihFirst
  | noEntries => exact Nat.lt_succ_self _
  | entry _ _ _ ihKey ihValue ihRest =>
      exact (ihRest.trans ihValue).trans ihKey

/- What items hold is decided by the items. -/
theorem Document.Holds.unique
    {items after after' : List Item}
    {held held' : Held}
    {count count' : Nat}
    (hHolds : document.Holds items held after count)
    (hOther : document.Holds items held' after' count')
    (hSort : held.IsLike held') :
    held = held' ∧ after = after' ∧ count = count' := by
  induction hHolds generalizing held' after' count' with
  | here hContent ih =>
      cases hOther with
      | here hOther =>
          rcases ih hOther trivial with ⟨hEq, rfl, rfl⟩
          cases hEq
          exact ⟨rfl, rfl, rfl⟩
      | aliasOf => cases hContent
      | _ => cases hSort
  | aliasOf hAnchor hContent ih =>
      cases hOther with
      | here hOther => cases hOther
      | aliasOf hOwn hOther =>
          rw [hAnchor, Option.some.injEq] at hOwn
          subst hOwn
          rcases ih hOther trivial with ⟨hEq, rfl, rfl⟩
          cases hEq
          exact ⟨rfl, rfl, rfl⟩
      | _ => cases hSort
  | scalar =>
      cases hOther with
      | scalar => exact ⟨rfl, rfl, rfl⟩
      | _ => cases hSort
  | sequence hItems ih =>
      cases hOther with
      | sequence hOther =>
          rcases ih hOther trivial with ⟨hEq, rfl, rfl⟩
          cases hEq
          exact ⟨rfl, rfl, rfl⟩
      | _ => cases hSort
  | mapping hEntries ih =>
      cases hOther with
      | mapping hOther =>
          rcases ih hOther trivial with ⟨hEq, rfl, rfl⟩
          cases hEq
          exact ⟨rfl, rfl, rfl⟩
      | _ => cases hSort
  | noItems =>
      cases hOther with
      | noItems => exact ⟨rfl, rfl, rfl⟩
      | item hFirst =>
          cases hFirst with
          | here hFirst => cases hFirst
      | _ => cases hSort
  | item hFirst hRest ihFirst ihRest =>
      cases hOther with
      | noItems =>
          cases hFirst with
          | here hFirst => cases hFirst
      | item hOther hMore =>
          rcases ihFirst hOther trivial with ⟨hEq, rfl, rfl⟩
          cases hEq
          rcases ihRest hMore trivial with ⟨hEq, rfl, rfl⟩
          cases hEq
          exact ⟨rfl, rfl, rfl⟩
      | _ => cases hSort
  | noEntries =>
      cases hOther with
      | noEntries => exact ⟨rfl, rfl, rfl⟩
      | entry hKey =>
          cases hKey with
          | here hKey => cases hKey
      | _ => cases hSort
  | entry hKey hValue hRest ihKey ihValue ihRest =>
      cases hOther with
      | noEntries =>
          cases hKey with
          | here hKey => cases hKey
      | entry hFirst hSecond hMore =>
          rcases ihKey hFirst trivial with ⟨hEq, rfl, rfl⟩
          cases hEq
          rcases ihValue hSecond trivial with ⟨hEq, rfl, rfl⟩
          cases hEq
          rcases ihRest hMore trivial with ⟨hEq, rfl, rfl⟩
          cases hEq
          exact ⟨rfl, rfl, rfl⟩
      | _ => cases hSort

end Yaml

end Transclusion

------------------------------------------------------------
-- Trees That Are Read
------------------------------------------------------------

namespace Transclusion

namespace Yaml

/-
  What is left is no more than the document, and no more
  aliases were followed than may be.
-/
structure ReadState.IsBounded
    (state : ReadState)
    (document : Document) : Prop where
  rest : state.rest.length ≤ document.size
  followed : state.followed ≤ document.size * 100

/-
  A reading leads from a state to another over what the
  items between them hold.
-/
def ReadState.LeadsTo
    (state : ReadState)
    (document : Document)
    (held : Held)
    (after : ReadState) : Prop :=
  ∃ count,
    document.Holds state.rest held after.rest count ∧
      after.followed = state.followed + count ∧
        after.followed ≤ document.size * 100

variable {document : Document}
variable {place : Place}
variable {state middle after : ReadState}
variable {held : Held}

/- What is left behind a reading is within the document. -/
theorem ReadState.LeadsTo.isBounded
    (hLeads : state.LeadsTo document held after)
    (hBounded : state.IsBounded document) :
    after.IsBounded document := by
  rcases hLeads with ⟨count, hHolds, _, hFollowed⟩
  exact
    ⟨hHolds.length_lt.le.trans hBounded.rest, hFollowed⟩

/- A reading leaves an item behind. -/
theorem ReadState.LeadsTo.length_lt
    (hLeads : state.LeadsTo document held after) :
    after.rest.length < state.rest.length := by
  rcases hLeads with ⟨count, hHolds, _⟩
  exact hHolds.length_lt

namespace Read

/- The next item is looked at where it stands. -/
theorem exists_of_peek_ok
    {item : Item}
    (hOk : peek document state = .ok (item, after)) :
    ∃ rest, state.rest = item :: rest ∧ after = state := by
  unfold peek at hOk
  rcases exists_of_bind_ok hOk with ⟨now, same, hGet, hRest⟩
  cases hGet
  cases hItems : state.rest with
  | nil =>
      rw [hItems] at hRest
      cases hRest
  | cons first rest =>
      rw [hItems] at hRest
      cases hRest
      exact ⟨rest, rfl, rfl⟩

/- The next item is taken off the rest. -/
theorem exists_of_next_ok
    {item : Item}
    (hOk : next document state = .ok (item, after)) :
    ∃ rest,
      state.rest = item :: rest ∧
        after = { state with rest := rest } := by
  unfold next at hOk
  rcases exists_of_bind_ok hOk with
    ⟨first, same, hPeek, hRest⟩
  rcases exists_of_peek_ok hPeek with ⟨rest, hItems, rfl⟩
  rcases exists_of_bind_ok hRest with
    ⟨_, moved, hModify, hEnd⟩
  cases hModify
  cases hEnd
  refine ⟨rest, hItems, ?_⟩
  simp only [hItems, List.tail_cons]

/- An alias is followed to its node, and back again. -/
theorem of_follow_ok
    {α : Type}
    {number : Nat}
    {read : Read α}
    {result : α}
    (hOk :
      follow document number read state =
        .ok (result, after)) :
    ∃ start behind,
      document.anchors.lookup number = some start ∧
        state.followed + 1 ≤ document.size * 100 ∧
          read
              ⟨document.items.drop start,
                state.followed + 1⟩ =
            .ok (result, behind) ∧
            after = { behind with rest := state.rest } := by
  unfold follow at hOk
  rcases exists_of_bind_ok hOk with ⟨now, same, hGet, hRest⟩
  cases hGet
  simp only at hRest
  split at hRest
  · cases hRest
  rename_i hRoom
  cases hLookup : document.anchors.lookup number with
  | none =>
      rw [hLookup] at hRest
      cases hRest
  | some start =>
      rw [hLookup] at hRest
      rcases exists_of_bind_ok hRest with
        ⟨_, before, hSet, hRead⟩
      cases hSet
      rcases exists_of_bind_ok hRead with
        ⟨found, behind, hFound, hEnd⟩
      rcases exists_of_bind_ok hEnd with
        ⟨_, last, hModify, hEnd⟩
      cases hModify
      cases hEnd
      exact
        ⟨start, behind, rfl, Nat.le_of_not_lt hRoom,
          hFound, rfl⟩

/-
  A reading of a node leads over it if the reading of what
  stands in its place does, here or where an alias leads.
-/
theorem leadsTo_of_content
    {α : Type}
    {read : Place → Item → Read α}
    (fits : Source → α → Prop)
    (hRead :
      ∀ place item rest followed result after,
        ReadState.IsBounded ⟨item :: rest, followed⟩
            document →
          read place item ⟨rest, followed⟩ =
              .ok (result, after) →
            ∃ source,
              ReadState.LeadsTo ⟨item :: rest, followed⟩
                  document (.content source) after ∧
                fits source result)
    (hSize : document.items.length ≤ document.size)
    (hBounded : state.IsBounded document)
    {result : α}
    (hOk :
      content document place read state =
        .ok (result, after)) :
    ∃ source,
      state.LeadsTo document (.node source) after ∧
        fits source result := by
  rcases state with ⟨items, followed⟩
  unfold content at hOk
  rcases exists_of_bind_ok hOk with
    ⟨⟨kind, mark⟩, next, hNext, hRest⟩
  rcases exists_of_next_ok hNext with ⟨rest, hItems, rfl⟩
  simp only at hItems
  subst hItems
  cases kind
  case aliasOf number =>
    rcases of_follow_ok (of_located_ok hRest) with
      ⟨start, behind, hAnchor, hRoom, hTarget, rfl⟩
    rcases exists_of_bind_ok hTarget with
      ⟨item, before, hFirst, hContent⟩
    rcases exists_of_next_ok hFirst with
      ⟨more, hDrop, rfl⟩
    simp only at hDrop hContent hRoom
    have hInside :
        ReadState.IsBounded ⟨item :: more, followed + 1⟩
          document := by
      refine ⟨?_, hRoom⟩
      rw [← hDrop]
      rw [List.length_drop]
      exact (Nat.sub_le _ _).trans hSize
    rcases hRead _ _ _ _ _ _ hInside hContent with
      ⟨source, ⟨count, hHolds, hFollowed, hMost⟩, hFits⟩
    rw [← hDrop] at hHolds
    refine
      ⟨source, ⟨count + 1, .aliasOf hAnchor hHolds, ?_, hMost⟩,
        hFits⟩
    simp only at hFollowed ⊢
    omega
  all_goals
    rcases hRead _ _ _ _ _ _ hBounded hRest with
      ⟨source, ⟨count, hHolds, hFollowed, hMost⟩, hFits⟩
    exact
      ⟨source, ⟨count, .here hHolds, hFollowed, hMost⟩,
        hFits⟩

end Read

namespace Node

/-
  Whether a reading of trees leads over what the items hold,
  and makes the tree that is written there.
-/
def IsSourced
    (document : Document)
    (read : Place → Read Node) : Prop :=
  ∀ place state node after,
    ReadState.IsBounded state document →
      read place state = .ok (node, after) →
        ∃ source,
          state.LeadsTo document (.node source) after ∧
            source.node? = some node

/- The items of a sequence are read one after another. -/
theorem leadsTo_of_readItems
    {inner : Place → Read Node}
    (hInner : IsSourced document inner)
    {fuel index : Nat}
    (hFuel : state.rest.length < fuel)
    (hBounded : state.IsBounded document)
    {nodes : List Node}
    (hOk :
      readItems document inner place fuel index state =
        .ok (nodes, after)) :
    ∃ items,
      state.LeadsTo document (.items items) after ∧
        Source.nodes? items = some nodes := by
  induction fuel generalizing index state nodes with
  | zero => exact absurd hFuel (Nat.not_lt_zero _)
  | succ fuel ih =>
      unfold readItems at hOk
      rcases exists_of_bind_ok hOk with
        ⟨⟨kind, mark⟩, same, hPeek, hRest⟩
      rcases Read.exists_of_peek_ok hPeek with
        ⟨rest, hItems, rfl⟩
      cases kind
      case sequenceEnd =>
        rcases exists_of_bind_ok hRest with
          ⟨_, next, hNext, hEnd⟩
        cases hEnd
        rcases Read.exists_of_next_ok hNext with
          ⟨more, hSame, rfl⟩
        rw [hItems] at hSame
        cases hSame
        refine ⟨[], ⟨0, ?_, rfl, hBounded.followed⟩, rfl⟩
        rw [hItems]
        exact .noItems
      all_goals
        rcases exists_of_bind_ok hRest with
          ⟨node, middle, hNode, hRest⟩
        rcases exists_of_bind_ok hRest with
          ⟨more, last, hMore, hEnd⟩
        cases hEnd
        rcases hInner _ _ _ _ hBounded hNode with
          ⟨source, hSource, hMade⟩
        have hShorter := hSource.length_lt
        rcases ih (by omega) (hSource.isBounded hBounded)
            hMore with
          ⟨sources, hSources, hAll⟩
        rcases hSource with
          ⟨count, hFirst, hCount, hRoom⟩
        rcases hSources with
          ⟨others, hOthers, hTotal, hMost⟩
        refine
          ⟨source :: sources,
            ⟨count + others, .item hFirst hOthers, ?_,
              hMost⟩, ?_⟩
        · omega
        · rw [Source.nodes?, hMade, hAll]
          rfl

/- The entries of a mapping are read one after another. -/
theorem leadsTo_of_readEntries
    {inner : Place → Read Node}
    (hInner : IsSourced document inner)
    {fuel : Nat}
    (hFuel : state.rest.length < fuel)
    (hBounded : state.IsBounded document)
    {seen : List Node}
    {nodes : List (Node × Node)}
    (hOk :
      readEntries document inner place fuel seen state =
        .ok (nodes, after)) :
    ∃ entries,
      state.LeadsTo document (.entries entries) after ∧
        Source.entryNodes? entries = some nodes := by
  induction fuel generalizing seen state nodes with
  | zero => exact absurd hFuel (Nat.not_lt_zero _)
  | succ fuel ih =>
      unfold readEntries at hOk
      rcases exists_of_bind_ok hOk with
        ⟨⟨kind, mark⟩, same, hPeek, hRest⟩
      rcases Read.exists_of_peek_ok hPeek with
        ⟨rest, hItems, rfl⟩
      cases kind
      case mappingEnd =>
        rcases exists_of_bind_ok hRest with
          ⟨_, next, hNext, hEnd⟩
        cases hEnd
        rcases Read.exists_of_next_ok hNext with
          ⟨more, hSame, rfl⟩
        rw [hItems] at hSame
        cases hSame
        refine ⟨[], ⟨0, ?_, rfl, hBounded.followed⟩, rfl⟩
        rw [hItems]
        exact .noEntries
      all_goals
        rcases exists_of_bind_ok hRest with
          ⟨key, inside, hKey, hRest⟩
        cases hFind : seen.find? (·.same key) with
        | some earlier =>
            rw [hFind] at hRest
            cases hRest
        | none =>
            rw [hFind] at hRest
            rcases exists_of_bind_ok hRest with
              ⟨value, middle, hValue, hRest⟩
            rcases exists_of_bind_ok hRest with
              ⟨more, last, hMore, hEnd⟩
            cases hEnd
            rcases hInner _ _ _ _ hBounded hKey with
              ⟨name, hName, hNamed⟩
            have hInside := hName.isBounded hBounded
            rcases hInner _ _ _ _ hInside hValue with
              ⟨source, hSource, hMade⟩
            have hShorter := hName.length_lt
            have hShortest := hSource.length_lt
            rcases ih (by omega) (hSource.isBounded hInside)
                hMore with
              ⟨entries, hEntries, hAll⟩
            rcases hName with ⟨own, hOwn, hOwnCount, _⟩
            rcases hSource with ⟨count, hFirst, hCount, _⟩
            rcases hEntries with
              ⟨others, hOthers, hTotal, hMost⟩
            refine
              ⟨(name, source) :: entries,
                ⟨own + count + others,
                  .entry hOwn hFirst hOthers, ?_, hMost⟩,
                ?_⟩
            · omega
            · rw [Source.entryNodes?, hNamed, hMade, hAll]
              rfl

/- A tree is read from an item on that is no alias. -/
theorem leadsTo_of_readContent
    {inner : Option (Place → Read Node)}
    (hInner :
      ∀ read, inner = some read → IsSourced document read)
    {item : Item}
    {rest : List Item}
    {followed : Nat}
    (hBounded :
      ReadState.IsBounded ⟨item :: rest, followed⟩ document)
    {node : Node}
    (hOk :
      readContent document inner place item
          ⟨rest, followed⟩ =
        .ok (node, after)) :
    ∃ source,
      ReadState.LeadsTo ⟨item :: rest, followed⟩ document
          (.content source) after ∧
        source.node? = some node := by
  have hRun := Read.of_located_ok hOk
  have hInside :
      ReadState.IsBounded ⟨rest, followed⟩ document :=
    ⟨(Nat.le_succ _).trans hBounded.rest, hBounded.followed⟩
  have hFuel : rest.length < document.size + 1 :=
    Nat.lt_succ_of_le hInside.rest
  rcases item with ⟨kind, mark⟩
  cases kind
  case scalar tag text style =>
    refine
      ⟨.scalar tag text style, ?_⟩
    simp only at hRun
    generalize hScalar :
      (Scalar.resolve _ text style).bind ofScalar = made
        at hRun
    cases made with
    | error complaint => cases hRun
    | ok plain =>
        cases hRun
        refine
          ⟨⟨0, .scalar, rfl, hBounded.followed⟩, ?_⟩
        rw [Source.node?, ofWritten, Scalar.ofWritten, hScalar]
        rfl
  case sequenceStart tag =>
    rcases exists_of_bind_ok hRun with
      ⟨read, same, hSome, hRest⟩
    rcases exists_of_bind_ok hRest with
      ⟨nodes, last, hNodes, hEnd⟩
    cases hEnd
    cases inner with
    | none => cases hSome
    | some read =>
        cases hSome
        rcases leadsTo_of_readItems (hInner read rfl) hFuel
            hInside hNodes with
          ⟨items, ⟨count, hItems, hCount, hMost⟩, hMade⟩
        refine
          ⟨.sequence tag items,
            ⟨count, .sequence hItems, hCount, hMost⟩, ?_⟩
        rw [Source.node?, hMade]
        rfl
  case mappingStart tag =>
    rcases exists_of_bind_ok hRun with
      ⟨read, same, hSome, hRest⟩
    rcases exists_of_bind_ok hRest with
      ⟨nodes, last, hNodes, hEnd⟩
    cases hEnd
    cases inner with
    | none => cases hSome
    | some read =>
        cases hSome
        rcases leadsTo_of_readEntries (hInner read rfl)
            hFuel hInside hNodes with
          ⟨entries, ⟨count, hEntries, hCount, hMost⟩, hMade⟩
        refine
          ⟨.mapping tag entries,
            ⟨count, .mapping hEntries, hCount, hMost⟩, ?_⟩
        rw [Source.node?, hMade]
        rfl
  all_goals cases hRun

/- A tree is read over what its items hold. -/
theorem isSourced_read
    (hSize : document.items.length ≤ document.size)
    (depth : Nat) :
    IsSourced document (read document depth) := by
  let fits (source : Source) (node : Node) : Prop :=
    source.node? = some node
  induction depth with
  | zero =>
      intro place state node after hBounded hOk
      refine
        Read.leadsTo_of_content fits ?_ hSize hBounded hOk
      intro place item rest followed node after hInside hRun
      refine leadsTo_of_readContent ?_ hInside hRun
      intro read hNone
      cases hNone
  | succ depth ih =>
      intro place state node after hBounded hOk
      refine
        Read.leadsTo_of_content fits ?_ hSize hBounded hOk
      intro place item rest followed node after hInside hRun
      refine leadsTo_of_readContent ?_ hInside hRun
      intro read hSome
      cases hSome
      exact ih

end Node

end Yaml

end Transclusion

------------------------------------------------------------
-- Texts
------------------------------------------------------------

namespace Transclusion

namespace Yaml

/- Whether the items of a draft have been counted. -/
def Document.Draft.IsCounted
    (draft : Document.Draft) : Prop :=
  draft.items.length = draft.size

/- An item that is added is counted. -/
theorem Document.Draft.IsCounted.add
    {draft : Document.Draft}
    (hDraft : draft.IsCounted)
    (anchor : Option (List Char))
    (kind : ItemKind)
    (mark : Mark) :
    ((draft.bind anchor).add kind mark).IsCounted := by
  cases anchor <;> exact congrArg (· + 1) hDraft

/- The items of a finished document are counted. -/
theorem Document.Draft.IsCounted.finish
    {draft : Document.Draft}
    (hDraft : draft.IsCounted)
    (error : Option ReadError) :
    (draft.finish error).items.length =
      (draft.finish error).size :=
  List.length_reverse.trans hDraft

/- The items of a document are counted. -/
theorem Document.length_items_ofEvents
    (error : Option SyntaxError)
    (events : List Event)
    {draft : Document.Draft}
    (hDraft : draft.IsCounted) :
    (ofEvents error events draft).1.items.length =
      (ofEvents error events draft).1.size := by
  induction events generalizing draft with
  | nil => exact hDraft.finish _
  | cons event rest ih =>
      rcases event with ⟨kind, mark⟩
      cases kind with
      | streamStart => exact ih hDraft
      | streamEnd => exact hDraft.finish _
      | documentStart => exact ih hDraft
      | documentEnd => exact hDraft.finish _
      | aliasOf name =>
          unfold ofEvents
          simp only
          split
          · exact ih (hDraft.add none _ _)
          · exact hDraft.finish _
      | scalar properties text style =>
          exact ih (hDraft.add _ _ _)
      | sequenceStart properties =>
          exact ih (hDraft.add _ _ _)
      | sequenceEnd => exact ih (hDraft.add none _ _)
      | mappingStart properties =>
          exact ih (hDraft.add _ _ _)
      | mappingEnd => exact ih (hDraft.add none _ _)

/- The items of the document of a text are counted. -/
theorem Document.length_items_ofText
    (text : List Char) :
    (ofText text).1.items.length = (ofText text).1.size :=
  length_items_ofEvents _ _ rfl

/- Whether a text is one document, all of it well-formed. -/
def IsOneDocument
    (text : String) : Prop :=
  (Document.ofText text.toList).1.error = none ∧
    (Document.ofText text.toList).2 = true

/- What a whole text is read as is read from its document. -/
theorem Read.wholeText_eq_ok_iff
    {α : Type}
    {read : Document → Read α}
    {text : String}
    {result : α} :
    wholeText read text = .ok result ↔
      IsOneDocument text ∧
        ∃ after,
          read (Document.ofText text.toList).1
              ⟨(Document.ofText text.toList).1.items, 0⟩ =
            .ok (result, after) := by
  unfold wholeText IsOneDocument
  generalize Document.ofText text.toList = whole
  rcases whole with ⟨document, isLast⟩
  change
    Except.bind
        (read document { rest := document.items }) _ =
      .ok result ↔ _
  cases hRead : read document { rest := document.items } with
  | error error =>
      simp [Except.bind]
  | ok pair =>
      rcases pair with ⟨found, after⟩
      simp only [Except.bind]
      cases document.error with
      | some error => simp
      | none => cases isLast <;> simp [pure, Except.pure]

/- A document without a node is read as what stands for it. -/
theorem Read.wholeText_of_items_eq_nil
    {α : Type}
    {text : String}
    (hOne : IsOneDocument text)
    (hNone : (Document.ofText text.toList).1.items = [])
    (result : α)
    (read : Document → Read α) :
    wholeText
        (fun document =>
          if document.isEmpty then return result
          else read document)
        text =
      .ok result := by
  have hEmpty :
      (Document.ofText text.toList).1.isEmpty = true := by
    unfold Document.isEmpty
    rw [hNone, hOne.1]
    rfl
  rw [wholeText_eq_ok_iff]
  simp only [hEmpty, if_true]
  exact ⟨hOne, _, rfl⟩

/-
  Whether a tree is what a text writes first, with no more
  aliases than may be followed.
-/
def Writes
    (text : String)
    (source : Source) : Prop :=
  let document := (Document.ofText text.toList).1
  ∃ after count,
    document.Holds document.items (.node source) after
        count ∧
      count ≤ document.size * 100

/- A text writes at most one tree first. -/
theorem Writes.unique
    {text : String}
    {source other : Source}
    (hWrites : Writes text source)
    (hOther : Writes text other) :
    source = other := by
  rcases hWrites with ⟨_, _, hHolds, _⟩
  rcases hOther with ⟨_, _, hOther, _⟩
  cases (hHolds.unique hOther trivial).1
  rfl

/- The tree of a text is the one that is written, if any is. -/
theorem Node.ofText_eq_ok_cases
    {text : String}
    {node : Node}
    (hOk : ofText text = .ok node) :
    IsOneDocument text ∧
      ((Document.ofText text.toList).1.items = [] ∧
          node = .null ∨
        ∃ source,
          Writes text source ∧
            source.node? = some node) := by
  have hSize := Document.length_items_ofText text.toList
  rcases Read.wholeText_eq_ok_iff.mp hOk with
    ⟨hOne, after, hRead⟩
  refine ⟨hOne, ?_⟩
  unfold Writes
  unfold IsOneDocument at hOne
  generalize Document.ofText text.toList = whole
    at hSize hOne hRead ⊢
  rcases whole with ⟨document, isLast⟩
  simp only at hSize hOne hRead ⊢
  split at hRead
  · rename_i hEmpty
    cases hRead
    unfold Document.isEmpty at hEmpty
    rw [Bool.and_eq_true, List.isEmpty_iff] at hEmpty
    exact .inl ⟨hEmpty.1, rfl⟩
  · have hBounded :
        ReadState.IsBounded ⟨document.items, 0⟩ document :=
      ⟨hSize.le, Nat.zero_le _⟩
    rcases isSourced_read hSize.le maxDepth _ _ _ _ hBounded
        hRead with
      ⟨source, ⟨count, hHolds, hCount, hRoom⟩, hNode⟩
    rw [hCount, Nat.zero_add] at hRoom
    exact .inr ⟨source, ⟨_, count, hHolds, hRoom⟩, hNode⟩

end Yaml

/-
  The value of a text is the one that is written, if any is,
  unless the text is blank.
-/
theorem parseText_eq_ok_cases
    {text : String}
    {value : Value}
    (hBlank : ¬ Text.IsBlankText text)
    (hOk : parseText text = .ok value) :
    Yaml.IsOneDocument text ∧
      ((Yaml.Document.ofText text.toList).1.items = [] ∧
          value = .null ∨
        ∃ source,
          Yaml.Writes text source ∧
            source.value? = some value) := by
  unfold parseText at hOk
  rw [if_neg hBlank] at hOk
  cases hNode : Yaml.Node.ofText text with
  | error error =>
      rw [hNode] at hOk
      cases hOk
  | ok node =>
      rw [hNode] at hOk
      simp only at hOk
      rcases Yaml.Node.ofText_eq_ok_cases hNode with
        ⟨hOne, ⟨hNone, rfl⟩ | ⟨source, hWrites, hMade⟩⟩
      · cases hOk
        exact ⟨hOne, .inl ⟨hNone, rfl⟩⟩
      · refine ⟨hOne, .inr ⟨source, hWrites, ?_⟩⟩
        rw [Yaml.Source.value?, hMade, Option.bind_some]
        cases hValue : node.toValue with
        | error collision =>
            rw [hValue] at hOk
            cases hOk
        | ok found =>
            rw [hValue] at hOk
            cases hOk
            rfl

/- A document without a node has the value null. -/
theorem parseText_of_items_eq_nil
    {text : String}
    (hOne : Yaml.IsOneDocument text)
    (hNone :
      (Yaml.Document.ofText text.toList).1.items = []) :
    parseText text = .ok .null := by
  have hNode : Yaml.Node.ofText text = .ok .null :=
    Yaml.Read.wholeText_of_items_eq_nil hOne hNone _ _
  unfold parseText
  rw [hNode]
  split <;> rfl

end Transclusion
