import Transclusion.Proofs.Value.Parsed
import Transclusion.Proofs.Yaml.Tree

/-
  Documents are nested no deeper than they are read.

  Key definitions include:
    * `Transclusion.Yaml.Node.FitsIn`

  Key theorems include:
    * `Transclusion.nesting_le_of_parseText`

  An alias stands for a tree that is read again, one level
  deeper at most than the place of the alias.
-/

------------------------------------------------------------
-- Trees of Values
------------------------------------------------------------

namespace Transclusion

namespace Yaml

namespace Node

/- The value of a tree, if it has one, is nested so deep. -/
def FitsIn
    (node : Node)
    (depth : Nat) : Prop :=
  ∀ value,
    node.toValue = .ok value → value.nesting ≤ depth

variable {depth : Nat}

/- A sequence is nested one level deeper than its items. -/
theorem fitsIn_sequence
    {nodes : List Node}
    (hNodes : ∀ node ∈ nodes, node.FitsIn depth) :
    (Node.sequence nodes).FitsIn (depth + 1) := by
  intro value hOk
  rcases toValue_sequence_eq_ok_iff.mp hOk with
    ⟨items, hItems, rfl⟩
  refine
    Nat.succ_le_succ (Value.itemsNesting_le_iff.mpr ?_)
  intro item hMem
  rcases exists_of_mem_of_forall₂
      (toItems_eq_ok_iff.mp hItems).flip hMem with
    ⟨node, hNode, hItem⟩
  exact hNodes node hNode item hItem

/- A mapping is nested one level deeper than its values. -/
theorem fitsIn_mapping
    {entries : List (Node × Node)}
    (hNodes : ∀ entry ∈ entries, entry.2.FitsIn depth) :
    (Node.mapping entries).FitsIn (depth + 1) := by
  intro value hOk
  rcases toValue_mapping_eq_ok_iff.mp hOk with
    ⟨fields, hFields, rfl⟩
  refine
    Nat.succ_le_succ (Value.fieldsNesting_le_iff.mpr ?_)
  intro field hMem
  rcases exists_of_mem_of_forall₂
      (toFields_eq_ok_iff.mp hFields).1.flip hMem with
    ⟨entry, hEntry, _, hField⟩
  exact hNodes entry hEntry field.2 hField

/- A tag does not nest. -/
theorem fitsIn_tagged
    {node : Node}
    (hNode : node.FitsIn depth)
    (tag : String) :
    (Node.tagged tag node).FitsIn depth := by
  intro value hOk
  rw [toValue] at hOk
  exact hNode value hOk

/- A name that a tag may give does not nest. -/
theorem fitsIn_named
    {node : Node}
    (hNode : node.FitsIn depth)
    (tag : Option TagText) :
    (match TagText.local? tag with
      | some name => Node.tagged name node
      | none => node).FitsIn depth := by
  cases TagText.local? tag with
  | none => exact hNode
  | some name => exact fitsIn_tagged hNode name

/- The tree of a scalar is not nested. -/
theorem fitsIn_ofScalar
    {scalar : Scalar}
    {node : Node}
    (hNode : ofScalar scalar = .ok node)
    (depth : Nat) :
    node.FitsIn depth := by
  intro value hOk
  have hPlain : value.nesting = 0 := by
    cases scalar <;> cases hNode
    case double d =>
      rw [toValue] at hOk
      cases hOk
      cases YamlNumber.toNumber? (.double d) <;> rfl
    all_goals
      cases hOk
      rfl
  omega

end Node

end Yaml

end Transclusion

------------------------------------------------------------
-- Readings
------------------------------------------------------------

namespace Transclusion

namespace Yaml

variable {document : Document}
variable {place : Place}
variable {state after : ReadState}

namespace Read

/- Where a reading stands does not matter if it succeeds. -/
theorem of_located_ok
    {α : Type}
    {mark : Mark}
    {read : Read α}
    {result : α × ReadState}
    (hOk : located mark place read state = .ok result) :
    read state = .ok result := by
  unfold located at hOk
  cases hRead : read state with
  | error error =>
      rw [hRead] at hOk
      cases hOk
  | ok pair =>
      rw [hRead] at hOk
      exact hOk

/- Where an alias leads, its node is read. -/
theorem exists_of_follow_ok
    {α : Type}
    {number : Nat}
    {read : Read α}
    {result : α}
    (hOk :
      follow document number read state =
        .ok (result, after)) :
    ∃ before behind, read before = .ok (result, behind) := by
  unfold follow at hOk
  rcases exists_of_bind_ok hOk with ⟨now, same, hGet, hRest⟩
  simp only at hRest
  split at hRest
  · cases hRest
  · cases hLookup : document.anchors.lookup number with
    | none =>
        rw [hLookup] at hRest
        cases hRest
    | some start =>
        rw [hLookup] at hRest
        rcases exists_of_bind_ok hRest with
          ⟨_, before, _, hRead⟩
        rcases exists_of_bind_ok hRead with
          ⟨found, behind, hRead, hEnd⟩
        rcases exists_of_bind_ok hEnd with ⟨_, _, _, hEnd⟩
        cases hEnd
        exact ⟨before, behind, hRead⟩

/- A node is read where it stands, or where its alias leads. -/
theorem exists_of_content_ok
    {α : Type}
    {read : Place → Item → Read α}
    {result : α}
    (hOk :
      content document place read state =
        .ok (result, after)) :
    ∃ place item before behind,
      read place item before = .ok (result, behind) := by
  rcases exists_of_bind_ok hOk with ⟨item, next, _, hRest⟩
  rcases item with ⟨kind, mark⟩
  cases kind
  case aliasOf number =>
    rcases exists_of_follow_ok (of_located_ok hRest) with
      ⟨before, behind, hInner⟩
    rcases exists_of_bind_ok hInner with
      ⟨target, middle, _, hRead⟩
    exact ⟨_, _, _, _, hRead⟩
  all_goals exact ⟨_, _, _, _, hRest⟩

end Read

namespace Node

variable {depth : Nat}

/- The items of a sequence fit where they are read. -/
theorem fitsIn_of_mem_readItems
    {inner : Place → Read Node}
    (hInner :
      ∀ place state node after,
        inner place state = .ok (node, after) →
          node.FitsIn depth)
    {fuel index : Nat}
    {nodes : List Node}
    (hOk :
      readItems document inner place fuel index state =
        .ok (nodes, after)) :
    ∀ node ∈ nodes, node.FitsIn depth := by
  induction fuel generalizing index state nodes with
  | zero =>
      cases hOk
      exact List.forall_mem_nil _
  | succ fuel ih =>
      unfold readItems at hOk
      rcases exists_of_bind_ok hOk with
        ⟨⟨kind, mark⟩, _, _, hRest⟩
      cases kind
      case sequenceEnd =>
        rcases exists_of_bind_ok hRest with ⟨_, _, _, hEnd⟩
        cases hEnd
        exact List.forall_mem_nil _
      all_goals
        rcases exists_of_bind_ok hRest with
          ⟨node, _, hNode, hRest⟩
        rcases exists_of_bind_ok hRest with
          ⟨more, _, hMore, hEnd⟩
        cases hEnd
        exact
          List.forall_mem_cons.mpr
            ⟨hInner _ _ _ _ hNode, ih hMore⟩

/- The values of a mapping fit where they are read. -/
theorem fitsIn_of_mem_readEntries
    {inner : Place → Read Node}
    (hInner :
      ∀ place state node after,
        inner place state = .ok (node, after) →
          node.FitsIn depth)
    {fuel : Nat}
    {seen : List Node}
    {entries : List (Node × Node)}
    (hOk :
      readEntries document inner place fuel seen state =
        .ok (entries, after)) :
    ∀ entry ∈ entries, entry.2.FitsIn depth := by
  induction fuel generalizing seen state entries with
  | zero =>
      cases hOk
      exact List.forall_mem_nil _
  | succ fuel ih =>
      unfold readEntries at hOk
      rcases exists_of_bind_ok hOk with
        ⟨⟨kind, mark⟩, _, _, hRest⟩
      cases kind
      case mappingEnd =>
        rcases exists_of_bind_ok hRest with ⟨_, _, _, hEnd⟩
        cases hEnd
        exact List.forall_mem_nil _
      all_goals
        rcases exists_of_bind_ok hRest with
          ⟨key, _, _, hRest⟩
        cases hFind : seen.find? (·.same key) with
        | some earlier =>
            rw [hFind] at hRest
            cases hRest
        | none =>
            rw [hFind] at hRest
            rcases exists_of_bind_ok hRest with
              ⟨value, _, hValue, hRest⟩
            rcases exists_of_bind_ok hRest with
              ⟨more, _, hMore, hEnd⟩
            cases hEnd
            exact
              List.forall_mem_cons.mpr
                ⟨hInner _ _ _ _ hValue, ih hMore⟩

/- A tree fits one level above the trees inside it. -/
theorem fitsIn_of_readContent
    {inner : Option (Place → Read Node)}
    (hInner :
      ∀ read, inner = some read →
        ∃ outer,
          depth = outer + 1 ∧
            ∀ place state node after,
              read place state = .ok (node, after) →
                node.FitsIn outer)
    {item : Item}
    {node : Node}
    (hOk :
      readContent document inner place item state =
        .ok (node, after)) :
    node.FitsIn depth := by
  have hRun := Read.of_located_ok hOk
  rcases item with ⟨kind, mark⟩
  cases kind
  case scalar tag text style =>
    simp only at hRun
    generalize hScalar :
      (Scalar.resolve _ text style).bind ofScalar = read at hRun
    cases read with
    | error complaint => cases hRun
    | ok plain =>
        cases hRun
        cases hResolve :
            Scalar.resolve
              (if (TagText.local? tag).isSome then none else tag)
              text style with
        | error complaint =>
            rw [hResolve] at hScalar
            cases hScalar
        | ok scalar =>
            rw [hResolve] at hScalar
            exact fitsIn_named (fitsIn_ofScalar hScalar depth) tag
  case sequenceStart tag =>
    rcases exists_of_bind_ok hRun with ⟨read, _, hSome, hRest⟩
    rcases exists_of_bind_ok hRest with
      ⟨nodes, _, hItems, hEnd⟩
    cases hEnd
    cases inner with
    | none => cases hSome
    | some read =>
        cases hSome
        rcases hInner read rfl with ⟨outer, rfl, hTrees⟩
        exact
          fitsIn_named
            (fitsIn_sequence
              (fitsIn_of_mem_readItems hTrees hItems))
            tag
  case mappingStart tag =>
    rcases exists_of_bind_ok hRun with ⟨read, _, hSome, hRest⟩
    rcases exists_of_bind_ok hRest with
      ⟨entries, _, hEntries, hEnd⟩
    cases hEnd
    cases inner with
    | none => cases hSome
    | some read =>
        cases hSome
        rcases hInner read rfl with ⟨outer, rfl, hTrees⟩
        exact
          fitsIn_named
            (fitsIn_mapping
              (fitsIn_of_mem_readEntries hTrees hEntries))
            tag
  all_goals cases hRun

/- A tree fits where it is read. -/
theorem fitsIn_of_read
    {node : Node}
    (hOk :
      read document depth place state = .ok (node, after)) :
    node.FitsIn depth := by
  induction depth generalizing place state node after with
  | zero =>
      rcases Read.exists_of_content_ok hOk with
        ⟨place, item, before, behind, hContent⟩
      refine fitsIn_of_readContent ?_ hContent
      intro read hNone
      cases hNone
  | succ depth ih =>
      rcases Read.exists_of_content_ok hOk with
        ⟨place, item, before, behind, hContent⟩
      refine fitsIn_of_readContent ?_ hContent
      rintro read hSome
      cases hSome
      exact ⟨depth, rfl, fun _ _ _ _ => ih⟩

/- A text has a tree that is nested so deep at most. -/
theorem fitsIn_of_ofText
    {text : String}
    {node : Node}
    (hOk : ofText text = .ok node) :
    node.FitsIn maxDepth := by
  unfold ofText Read.wholeText at hOk
  generalize Document.ofText text.toList = whole at hOk
  rcases whole with ⟨document, isLast⟩
  change
    Except.bind
        ((if document.isEmpty then pure .null
            else read document maxDepth .root : Read Node)
          { rest := document.items }) _ =
      .ok node at hOk
  have hRead :
      ∃ after,
        (if document.isEmpty then pure .null
            else read document maxDepth .root : Read Node)
            { rest := document.items } =
          .ok (node, after) := by
    cases hFirst :
        (if document.isEmpty then pure .null
          else read document maxDepth .root : Read Node)
          { rest := document.items } with
    | error error =>
        rw [hFirst] at hOk
        cases hOk
    | ok result =>
        rw [hFirst] at hOk
        rcases result with ⟨result, after⟩
        cases hError : document.error with
        | some error =>
            simp only [Except.bind, hError] at hOk
            cases hOk
        | none =>
            simp only [Except.bind, hError] at hOk
            cases isLast <;> cases hOk
            exact ⟨after, rfl⟩
  rcases hRead with ⟨after, hRead⟩
  split at hRead
  · cases hRead
    exact
      fitsIn_ofScalar (show ofScalar .null = .ok .null from rfl)
        maxDepth
  · exact fitsIn_of_read hRead

end Node

end Yaml

/- A text is read as a value that is nested so deep at most. -/
theorem nesting_le_of_parseText
    {text : String}
    {value : Value}
    (hOk : parseText text = .ok value) :
    value.nesting ≤ Yaml.Node.maxDepth := by
  unfold parseText at hOk
  split at hOk
  · cases hOk
    exact Nat.zero_le _
  · split at hOk
    · cases hOk
    · rename_i node hNode
      split at hOk
      · rename_i read hValue
        cases hOk
        exact
          Yaml.Node.fitsIn_of_ofText hNode value hValue
      · cases hOk

end Transclusion
