import Transclusion.Proofs.Number.Text
import Transclusion.Proofs.Value.OfTree
import Transclusion.Proofs.Yaml.Run
import Transclusion.Document

/-
  The pieces of a value, and the tree that they are read as.

  Key definitions include:
    * `Transclusion.Yaml.Spelling`
    * `Transclusion.Yaml.Piece`
    * `Transclusion.Yaml.Spelling.pieces`
    * `Transclusion.Value.nesting`

  Key theorems include:
    * `Transclusion.Yaml.Spelling.IsFaithful.reads_pieces`
    * `Transclusion.Yaml.Node.toValue_ofValue`

  Every notation of a value without tags and anchors has the
  same pieces, up to how its scalars are spelled.
-/

------------------------------------------------------------
-- Pieces
------------------------------------------------------------

namespace Transclusion

namespace Yaml

/- How the numbers and the texts of values are spelled. -/
structure Spelling where
  layout : Layout
  style : List Char → ScalarStyle

/- A part of a tree without tags and anchors. -/
inductive Piece where
  | scalar (text : List Char) (style : ScalarStyle)
  | sequenceStart
  | sequenceEnd
  | mappingStart
  | mappingEnd

namespace Piece

/- The event of a piece. -/
def event : Piece → EventKind
  | scalar text style => .scalar {} text style
  | sequenceStart => .sequenceStart {}
  | sequenceEnd => .sequenceEnd
  | mappingStart => .mappingStart {}
  | mappingEnd => .mappingEnd

/- The item of a piece. -/
def item : Piece → ItemKind
  | scalar text style => .scalar none text style
  | sequenceStart => .sequenceStart none
  | sequenceEnd => .sequenceEnd
  | mappingStart => .mappingStart none
  | mappingEnd => .mappingEnd

end Piece

namespace Spelling

/- The piece of a text. -/
def textPiece
    (spelling : Spelling)
    (s : String) : Piece :=
  .scalar s.toList (spelling.style s.toList)

mutual

/- The pieces of a value. -/
def pieces
    (spelling : Spelling) : Value → List Piece
  | .null => [.scalar "null".toList .plain]
  | .bool b => [.scalar (boolText b).toList .plain]
  | .number n =>
      [.scalar (n.text spelling.layout).toList .plain]
  | .string s => [spelling.textPiece s]
  | .array items =>
      .sequenceStart :: spelling.itemPieces items ++
        [.sequenceEnd]
  | .object fields =>
      .mappingStart :: spelling.fieldPieces fields ++
        [.mappingEnd]

/- The pieces of the items of an array. -/
def itemPieces
    (spelling : Spelling) : List Value → List Piece
  | [] => []
  | item :: rest =>
      spelling.pieces item ++ spelling.itemPieces rest

/- The pieces of the fields of an object. -/
def fieldPieces
    (spelling : Spelling) :
    List (String × Value) → List Piece
  | [] => []
  | (key, value) :: rest =>
      spelling.textPiece key :: spelling.pieces value ++
        spelling.fieldPieces rest

end

/-
  Whether scalars are read as what they are: a text without
  quotes stands for itself, and a plus is the only sign of
  an exponent that may be left out.
-/
structure IsFaithful
    (spelling : Spelling) : Prop where
  plain :
    ∀ text,
      spelling.style text = .plain →
        Scalar.ofPlain text = .string text
  plus :
    spelling.layout.plus = [] ∨
      spelling.layout.plus = ['+']

end Spelling

end Yaml

end Transclusion

------------------------------------------------------------
-- Nesting
------------------------------------------------------------

namespace Transclusion

namespace Value

mutual

/- How deep the collections of a value are nested. -/
def nesting : Value → Nat
  | .array items => itemsNesting items + 1
  | .object fields => fieldsNesting fields + 1
  | _ => 0

/- How deep collections are nested in a list. -/
def itemsNesting : List Value → Nat
  | [] => 0
  | item :: rest => max (nesting item) (itemsNesting rest)

/- How deep collections are nested in fields. -/
def fieldsNesting : List (String × Value) → Nat
  | [] => 0
  | (_, value) :: rest =>
      max (nesting value) (fieldsNesting rest)

end

/- A list is nested so deep at most if all its items are. -/
theorem itemsNesting_le_iff
    {items : List Value}
    {depth : Nat} :
    itemsNesting items ≤ depth ↔
      ∀ item ∈ items, item.nesting ≤ depth := by
  induction items with
  | nil => simp [itemsNesting]
  | cons item rest ih =>
      rw [itemsNesting, Nat.max_le, List.forall_mem_cons, ih]

/- Fields are nested so deep at most if all their values are. -/
theorem fieldsNesting_le_iff
    {fields : Fields}
    {depth : Nat} :
    fieldsNesting fields ≤ depth ↔
      ∀ field ∈ fields, field.2.nesting ≤ depth := by
  induction fields with
  | nil => simp [fieldsNesting]
  | cons field rest ih =>
      rw [fieldsNesting, Nat.max_le, List.forall_mem_cons, ih]

end Value

end Transclusion

------------------------------------------------------------
-- Reading Pieces
------------------------------------------------------------

namespace Transclusion

namespace Yaml

variable {document : Document}
variable {place : Place}
variable {item : Item}
variable {rest : List Item}
variable {followed : Nat}

namespace Read

/- The next item is the first one that is left. -/
theorem peek_cons :
    peek document ⟨item :: rest, followed⟩ =
      .ok (item, ⟨item :: rest, followed⟩) := by
  rfl

/- Where a reading stands does not matter if it succeeds. -/
theorem located_ok
    {α : Type}
    {mark : Mark}
    {read : Read α}
    {state after : ReadState}
    {result : α}
    (hOk : read state = .ok (result, after)) :
    located mark place read state = .ok (result, after) := by
  unfold located
  rw [hOk]
  rfl

/- What is no alias is read where it stands. -/
theorem content_cons
    {α : Type}
    (read : Place → Item → Read α)
    (hAlias : ∀ number, item.kind ≠ .aliasOf number) :
    content document place read ⟨item :: rest, followed⟩ =
      read place item ⟨rest, followed⟩ := by
  rcases item with ⟨kind, mark⟩
  cases kind with
  | aliasOf number => exact absurd rfl (hAlias number)
  | scalar tag text style => rfl
  | sequenceStart tag => rfl
  | sequenceEnd => rfl
  | mappingStart tag => rfl
  | mappingEnd => rfl

end Read

namespace Node

/- A tree begins with an item that is no alias. -/
theorem read_cons
    (depth : Nat)
    (hAlias : ∀ number, item.kind ≠ .aliasOf number) :
    read document depth place ⟨item :: rest, followed⟩ =
      readContent document
        (match depth with
          | 0 => none
          | depth + 1 => some (read document depth))
        place item ⟨rest, followed⟩ := by
  cases depth with
  | zero => exact Read.content_cons _ hAlias
  | succ depth => exact Read.content_cons _ hAlias

/- A scalar is read as what it stands for. -/
theorem readContent_scalar
    {inner : Option (Place → Read Node)}
    {text : List Char}
    {style : ScalarStyle}
    {node : Node}
    (hKind : item.kind = .scalar none text style)
    (hNode : ofScalar (Scalar.untagged text style) = .ok node) :
    readContent document inner place item
        ⟨rest, followed⟩ =
      .ok (node, ⟨rest, followed⟩) := by
  unfold readContent
  apply Read.located_ok
  rw [hKind]
  have hScalar :
      (Scalar.resolve none text style).bind ofScalar =
        .ok node :=
    hNode
  simp only [TagText.local?, Option.isSome_none,
    Bool.false_eq_true, if_false, hScalar]
  rfl

/- The items of a sequence are read up to its end. -/
theorem readContent_sequence
    {inner : Place → Read Node}
    {nodes : List Node}
    {state : ReadState}
    (hKind : item.kind = .sequenceStart none)
    (hItems :
      readItems document inner place (document.size + 1) 0
          ⟨rest, followed⟩ =
        .ok (nodes, state)) :
    readContent document (some inner) place item
        ⟨rest, followed⟩ =
      .ok (.sequence nodes, state) := by
  unfold readContent
  apply Read.located_ok
  rw [hKind]
  simp only [TagText.local?]
  rw [bind_ok pure_ok, bind_ok hItems]
  rfl

/- The entries of a mapping are read up to its end. -/
theorem readContent_mapping
    {inner : Place → Read Node}
    {entries : List (Node × Node)}
    {state : ReadState}
    (hKind : item.kind = .mappingStart none)
    (hEntries :
      readEntries document inner place (document.size + 1)
          [] ⟨rest, followed⟩ =
        .ok (entries, state)) :
    readContent document (some inner) place item
        ⟨rest, followed⟩ =
      .ok (.mapping entries, state) := by
  unfold readContent
  apply Read.located_ok
  rw [hKind]
  simp only [TagText.local?]
  rw [bind_ok pure_ok, bind_ok hEntries]
  rfl

/- A sequence without items is at its end. -/
theorem readItems_end
    {inner : Place → Read Node}
    {fuel index : Nat}
    (hKind : item.kind = .sequenceEnd) :
    readItems document inner place (fuel + 1) index
        ⟨item :: rest, followed⟩ =
      .ok ([], ⟨rest, followed⟩) := by
  unfold readItems
  rw [bind_ok Read.peek_cons, hKind]
  rfl

/- The first item of a sequence, and those behind it. -/
theorem readItems_cons
    {inner : Place → Read Node}
    {fuel index : Nat}
    {node : Node}
    {more : List Node}
    {after final : ReadState}
    (hKind : item.kind ≠ .sequenceEnd)
    (hNode :
      inner (.item place index) ⟨item :: rest, followed⟩ =
        .ok (node, after))
    (hMore :
      readItems document inner place fuel (index + 1)
          after =
        .ok (more, final)) :
    readItems document inner place (fuel + 1) index
        ⟨item :: rest, followed⟩ =
      .ok (node :: more, final) := by
  unfold readItems
  rw [bind_ok Read.peek_cons]
  rcases item with ⟨kind, mark⟩
  cases kind
  case sequenceEnd => exact absurd rfl hKind
  all_goals
    simp only
    rw [bind_ok hNode, bind_ok hMore]
    rfl

/- A mapping without entries is at its end. -/
theorem readEntries_end
    {inner : Place → Read Node}
    {fuel : Nat}
    {seen : List Node}
    (hKind : item.kind = .mappingEnd) :
    readEntries document inner place (fuel + 1) seen
        ⟨item :: rest, followed⟩ =
      .ok ([], ⟨rest, followed⟩) := by
  unfold readEntries
  rw [bind_ok Read.peek_cons, hKind]
  rfl

/- The first entry of a mapping, and those behind it. -/
theorem readEntries_cons
    {inner : Place → Read Node}
    {fuel : Nat}
    {key value : Node}
    {seen : List Node}
    {more : List (Node × Node)}
    {middle after final : ReadState}
    (hKind : item.kind ≠ .mappingEnd)
    (hKey :
      ∀ place,
        inner place ⟨item :: rest, followed⟩ =
          .ok (key, middle))
    (hNew : seen.find? (·.same key) = none)
    (hValue :
      ∀ place, inner place middle = .ok (value, after))
    (hMore :
      readEntries document inner place fuel (key :: seen)
          after =
        .ok (more, final)) :
    readEntries document inner place (fuel + 1) seen
        ⟨item :: rest, followed⟩ =
      .ok ((key, value) :: more, final) := by
  unfold readEntries
  rw [bind_ok Read.peek_cons]
  rcases item with ⟨kind, mark⟩
  cases kind
  case mappingEnd => exact absurd rfl hKind
  all_goals
    simp only
    rw [bind_ok (hKey _), hNew]
    simp only
    rw [bind_ok (hValue _), bind_ok hMore]
    rfl

end Node

------------------------------------------------------------
-- Pieces of Values
------------------------------------------------------------

namespace Spelling

variable {spelling : Spelling}

/- A value has a first piece, which ends nothing. -/
theorem pieces_eq_cons
    (spelling : Spelling)
    (value : Value) :
    ∃ first more,
      spelling.pieces value = first :: more ∧
        first.item ≠ .sequenceEnd ∧
          first.item ≠ .mappingEnd ∧
            ∀ number, first.item ≠ .aliasOf number := by
  cases value <;>
    refine ⟨_, _, rfl, ?_, ?_, fun number => ?_⟩ <;>
      intro hEq <;> cases hEq

/- Each item has a piece. -/
theorem length_le_itemPieces
    (spelling : Spelling)
    (items : List Value) :
    items.length ≤ (spelling.itemPieces items).length := by
  induction items with
  | nil => exact Nat.zero_le _
  | cons item rest ih =>
      rcases pieces_eq_cons spelling item with
        ⟨first, more, hPieces, _⟩
      rw [itemPieces, hPieces, List.length_append]
      simp only [List.length_cons]
      omega

/- Each field has a piece. -/
theorem length_le_fieldPieces
    (spelling : Spelling)
    (fields : Fields) :
    fields.length ≤ (spelling.fieldPieces fields).length := by
  induction fields with
  | nil => exact Nat.zero_le _
  | cons field rest ih =>
      rcases field with ⟨key, value⟩
      rw [fieldPieces, List.length_append]
      simp only [List.length_cons]
      omega

/- An item has no more pieces than the list. -/
theorem length_pieces_le_itemPieces
    {items : List Value}
    {item : Value}
    (hMem : item ∈ items) :
    (spelling.pieces item).length ≤
      (spelling.itemPieces items).length := by
  induction items with
  | nil => cases hMem
  | cons first rest ih =>
      rw [itemPieces, List.length_append]
      rcases List.mem_cons.mp hMem with rfl | hMem
      · omega
      · have := ih hMem
        omega

/- A field has no more pieces than all of them. -/
theorem length_pieces_le_fieldPieces
    {fields : Fields}
    {field : String × Value}
    (hMem : field ∈ fields) :
    (spelling.pieces field.2).length ≤
      (spelling.fieldPieces fields).length := by
  induction fields with
  | nil => cases hMem
  | cons first rest ih =>
      rcases first with ⟨key, value⟩
      rw [fieldPieces, List.length_append]
      simp only [List.length_cons]
      rcases List.mem_cons.mp hMem with rfl | hMem
      · simp only
        omega
      · have := ih hMem
        omega

end Spelling

end Yaml

end Transclusion

------------------------------------------------------------
-- Trees of Values
------------------------------------------------------------

namespace Transclusion

namespace Yaml

variable {document : Document}
variable {inner : Place → Read Node}
variable {place : Place}
variable {rest : List Item}
variable {followed : Nat}

/-
  Whether a reading makes a tree of pieces, wherever they
  stand and whatever is behind them.
-/
def Reads
    (read : Place → Read Node)
    (pieces : List Piece)
    (node : Node) : Prop :=
  ∀ place items rest followed,
    items.map Item.kind = pieces.map Piece.item →
      read place ⟨items ++ rest, followed⟩ =
        .ok (node, ⟨rest, followed⟩)

namespace Spelling

variable {spelling : Spelling}

/- A scalar is read at any depth. -/
theorem reads_scalar
    {text : List Char}
    {style : ScalarStyle}
    {node : Node}
    (depth : Nat)
    (hNode :
      Node.ofScalar (Scalar.untagged text style) = .ok node) :
    Reads (Node.read document depth) [.scalar text style]
      node := by
  intro place items rest followed hKinds
  rcases List.map_eq_singleton_iff.mp hKinds with
    ⟨item, rfl, hKind⟩
  rw [List.singleton_append,
    Node.read_cons depth (by rw [hKind]; simp [Piece.item])]
  exact Node.readContent_scalar hKind hNode

/- A text is read as itself. -/
theorem reads_textPiece
    (hFaithful : spelling.IsFaithful)
    (depth : Nat)
    (s : String) :
    Reads (Node.read document depth)
      [spelling.textPiece s] (.string s) := by
  apply reads_scalar
  unfold Scalar.untagged
  split
  · rename_i hPlain
    rw [hFaithful.plain s.toList hPlain, Node.ofScalar,
      String.ofList_toList]
  · rw [Node.ofScalar, String.ofList_toList]

/- Items are read one after another. -/
theorem readItems_itemPieces
    {items : List Value}
    (hInner :
      ∀ item ∈ items,
        Reads inner (spelling.pieces item)
          (Node.ofValue item))
    {fuel : Nat}
    (hFuel : items.length < fuel)
    (index : Nat)
    {read : List Item}
    (hKinds :
      read.map Item.kind =
        (spelling.itemPieces items).map Piece.item ++
          [.sequenceEnd]) :
    Node.readItems document inner place fuel index
        ⟨read ++ rest, followed⟩ =
      .ok (Node.ofItems items, ⟨rest, followed⟩) := by
  induction items generalizing fuel index read with
  | nil =>
      rcases List.map_eq_singleton_iff.mp hKinds with
        ⟨item, rfl, hKind⟩
      rcases Nat.exists_eq_add_one.mpr
          (Nat.zero_lt_of_lt hFuel) with ⟨fuel, rfl⟩
      exact Node.readItems_end hKind
  | cons item items ih =>
      rw [List.forall_mem_cons] at hInner
      rw [itemPieces, List.map_append, List.append_assoc]
        at hKinds
      rcases List.map_eq_append_iff.mp hKinds with
        ⟨own, others, rfl, hOwn, hOthers⟩
      rcases Nat.exists_eq_add_one.mpr
          (Nat.zero_lt_of_lt hFuel) with ⟨fuel, rfl⟩
      have hNode (place : Place) :=
        hInner.1 place own (others ++ rest) followed hOwn
      rcases pieces_eq_cons spelling item with
        ⟨first, more, hPieces, hNoEnd, _⟩
      rw [hPieces, List.map_cons] at hOwn
      rcases List.map_eq_cons_iff.mp hOwn with
        ⟨head, tail, rfl, hHead, _⟩
      rw [List.append_assoc, List.cons_append]
      refine
        Node.readItems_cons (hHead ▸ hNoEnd)
          (hNode (.item place index)) ?_
      exact
        ih hInner.2 (by rw [List.length_cons] at hFuel; omega)
          (index + 1) hOthers

/-
  Fields are read one after another, if their keys are
  different from each other and from those before them.
-/
theorem readEntries_fieldPieces
    {fields : Fields}
    (hKey :
      ∀ s, Reads inner [spelling.textPiece s] (.string s))
    (hInner :
      ∀ field ∈ fields,
        Reads inner (spelling.pieces field.2)
          (Node.ofValue field.2))
    {fuel : Nat}
    (hFuel : fields.length < fuel)
    (seen : List String)
    (hKeys : (seen ++ Fields.keys fields).Nodup)
    {read : List Item}
    (hKinds :
      read.map Item.kind =
        (spelling.fieldPieces fields).map Piece.item ++
          [.mappingEnd]) :
    Node.readEntries document inner place fuel
        (seen.reverse.map Node.string)
        ⟨read ++ rest, followed⟩ =
      .ok (Node.ofFields fields, ⟨rest, followed⟩) := by
  induction fields generalizing fuel seen read with
  | nil =>
      rcases List.map_eq_singleton_iff.mp hKinds with
        ⟨item, rfl, hKind⟩
      rcases Nat.exists_eq_add_one.mpr
          (Nat.zero_lt_of_lt hFuel) with ⟨fuel, rfl⟩
      exact Node.readEntries_end hKind
  | cons field fields ih =>
      rcases field with ⟨key, value⟩
      rw [List.forall_mem_cons] at hInner
      rw [fieldPieces, List.map_append, List.map_cons,
        List.append_assoc, List.cons_append] at hKinds
      rcases List.map_eq_cons_iff.mp hKinds with
        ⟨head, behind, rfl, hHead, hBehind⟩
      rcases List.map_eq_append_iff.mp hBehind with
        ⟨own, others, rfl, hOwn, hOthers⟩
      rcases Nat.exists_eq_add_one.mpr
          (Nat.zero_lt_of_lt hFuel) with ⟨fuel, rfl⟩
      have hName (place : Place) :=
        hKey key place [head] (own ++ others ++ rest)
          followed (by rw [List.map_singleton, hHead]; rfl)
      have hNode (place : Place) :=
        hInner.1 place own (others ++ rest) followed hOwn
      have hNew :
          (seen.reverse.map Node.string).find?
              (·.same (.string key)) =
            none := by
        rw [List.find?_eq_none]
        intro node hMem
        rcases List.mem_map.mp hMem with ⟨name, hSeen, rfl⟩
        rw [Node.same, beq_iff_eq]
        rintro rfl
        exact
          (List.nodup_append'.mp hKeys).2.2
            (List.mem_reverse.mp hSeen) List.mem_cons_self
      rw [Fields.keys, List.map_cons, ← List.singleton_append,
        ← List.append_assoc] at hKeys
      have hMore :=
        ih hInner.2
          (show fields.length < fuel by
            rw [List.length_cons] at hFuel; omega)
          _ hKeys hOthers
      rw [List.reverse_append] at hMore
      rw [List.cons_append, List.append_assoc]
      rw [List.append_assoc] at hName
      exact
        Node.readEntries_cons
          (by rw [hHead]; simp [textPiece, Piece.item])
          hName hNew hNode hMore

/-
  The pieces of a value are read as its tree, if it is not
  nested too deep and its keys are distinct.
-/
theorem IsFaithful.reads_pieces
    (hFaithful : spelling.IsFaithful)
    (value : Value)
    {depth : Nat}
    (hDepth : value.nesting ≤ depth)
    (hSize :
      (spelling.pieces value).length ≤ document.size)
    (hKeys : value.hasDistinctKeys = true) :
    Reads (Node.read document depth)
      (spelling.pieces value) (Node.ofValue value) := by
  induction value using Value.induction generalizing depth with
  | plain value hPlain =>
      cases value with
      | null => exact reads_scalar depth rfl
      | bool b => cases b <;> exact reads_scalar depth rfl
      | number n =>
          apply reads_scalar depth
          unfold Scalar.untagged
          rw [if_pos rfl, ofPlain_numberText hFaithful.plus]
          cases n <;> rfl
      | string s => exact reads_textPiece hFaithful depth s
      | array items => cases hPlain
      | object fields => cases hPlain
  | array items ih =>
      rw [Value.hasDistinctKeys_array_iff] at hKeys
      rw [Value.nesting] at hDepth
      rcases Nat.exists_eq_add_one_of_ne_zero
          (Nat.ne_of_gt (Nat.lt_of_lt_of_le
            (Nat.succ_pos _) hDepth)) with ⟨depth, rfl⟩
      rw [pieces, List.cons_append, List.length_cons,
        List.length_append] at hSize
      have hInner (item : Value) (hMem : item ∈ items) :=
        ih item hMem
          (Value.itemsNesting_le_iff.mp
            (Nat.le_of_succ_le_succ hDepth) item hMem)
          (Nat.le_trans (length_pieces_le_itemPieces hMem)
            (by omega))
          (hKeys item hMem)
      intro place read rest followed hKinds
      rw [pieces, List.cons_append, List.map_cons,
        List.map_append] at hKinds
      rcases List.map_eq_cons_iff.mp hKinds with
        ⟨head, behind, rfl, hHead, hBehind⟩
      have hFuel : items.length < document.size + 1 :=
        Nat.lt_of_le_of_lt
          (length_le_itemPieces spelling items)
          (by omega)
      rw [List.cons_append,
        Node.read_cons _ (by rw [hHead]; simp [Piece.item])]
      exact
        Node.readContent_sequence hHead
          (readItems_itemPieces hInner hFuel 0 hBehind)
  | object fields ih =>
      rw [Value.hasDistinctKeys_object_iff] at hKeys
      rw [Value.nesting] at hDepth
      rcases Nat.exists_eq_add_one_of_ne_zero
          (Nat.ne_of_gt (Nat.lt_of_lt_of_le
            (Nat.succ_pos _) hDepth)) with ⟨depth, rfl⟩
      rw [pieces, List.cons_append, List.length_cons,
        List.length_append] at hSize
      have hInner
          (field : String × Value) (hMem : field ∈ fields) :=
        ih field hMem
          (Value.fieldsNesting_le_iff.mp
            (Nat.le_of_succ_le_succ hDepth) field hMem)
          (Nat.le_trans (length_pieces_le_fieldPieces hMem)
            (by omega))
          (hKeys.2 field hMem)
      intro place read rest followed hKinds
      rw [pieces, List.cons_append, List.map_cons,
        List.map_append] at hKinds
      rcases List.map_eq_cons_iff.mp hKinds with
        ⟨head, behind, rfl, hHead, hBehind⟩
      have hFuel : fields.length < document.size + 1 :=
        Nat.lt_of_le_of_lt
          (length_le_fieldPieces spelling fields)
          (by omega)
      rw [List.cons_append,
        Node.read_cons _ (by rw [hHead]; simp [Piece.item])]
      exact
        Node.readContent_mapping hHead
          (readEntries_fieldPieces
            (reads_textPiece hFaithful depth) hInner hFuel
            [] hKeys.1 hBehind)

end Spelling

end Yaml

end Transclusion

------------------------------------------------------------
-- Values of Trees of Values
------------------------------------------------------------

namespace Transclusion

namespace Yaml

namespace Node

/- The trees of items have those items for values. -/
theorem toItems_ofItems
    {items : List Value}
    (hItems :
      ∀ item ∈ items, (ofValue item).toValue = .ok item) :
    toItems (ofItems items) = .ok items := by
  rw [toItems_eq_ok_iff]
  induction items with
  | nil => exact .nil
  | cons item rest ih =>
      rw [List.forall_mem_cons] at hItems
      exact .cons hItems.1 (ih hItems.2)

/- The entries of fields have those fields for values. -/
theorem toFields_ofFields
    {fields : Fields}
    (hFields :
      ∀ field ∈ fields,
        (ofValue field.2).toValue = .ok field.2)
    (hKeys : (Fields.keys fields).Nodup) :
    toFields [] (ofFields fields) = .ok fields := by
  refine toFields_eq_ok_iff.mpr ⟨?_, hKeys, by simp⟩
  clear hKeys
  induction fields with
  | nil => exact .nil
  | cons field rest ih =>
      rw [List.forall_mem_cons] at hFields
      exact .cons ⟨rfl, hFields.1⟩ (ih hFields.2)

/-
  The tree of a value has that value, if its keys are
  distinct.
-/
theorem toValue_ofValue
    (value : Value)
    (hKeys : value.hasDistinctKeys = true) :
    (ofValue value).toValue = .ok value := by
  induction value using Value.induction with
  | plain value hPlain =>
      cases value with
      | null => rfl
      | bool b => rfl
      | number n => cases n <;> rfl
      | string s => rfl
      | array items => cases hPlain
      | object fields => cases hPlain
  | array items ih =>
      rw [Value.hasDistinctKeys_array_iff] at hKeys
      rw [ofValue, toValue,
        toItems_ofItems fun item hMem =>
          ih item hMem (hKeys item hMem)]
      rfl
  | object fields ih =>
      rw [Value.hasDistinctKeys_object_iff] at hKeys
      rw [ofValue, toValue,
        toFields_ofFields
          (fun field hMem =>
            ih field hMem (hKeys.2 field hMem))
          hKeys.1]
      rfl

end Node

end Yaml

end Transclusion

------------------------------------------------------------
-- Documents of Pieces
------------------------------------------------------------

namespace Transclusion

namespace Yaml

/- The kinds of the events of a text with one document. -/
def documentEvents
    (pieces : List Piece) : List EventKind :=
  .streamStart :: .documentStart ::
    (pieces.map Piece.event ++ [.documentEnd, .streamEnd])

/- The events of pieces become their items. -/
theorem exists_ofEvents
    (error : Option SyntaxError)
    {pieces : List Piece}
    {events : List Event}
    (rest : List Event)
    (hKinds :
      events.map Event.kind = pieces.map Piece.event)
    (draft : Document.Draft) :
    ∃ items : List Item,
      items.map Item.kind = pieces.map Piece.item ∧
        Document.ofEvents error (events ++ rest) draft =
          Document.ofEvents error rest
            { draft with
              items := items.reverse ++ draft.items
              size := draft.size + pieces.length } := by
  induction pieces generalizing events draft with
  | nil =>
      rw [List.map_nil, List.map_eq_nil_iff] at hKinds
      subst hKinds
      exact ⟨[], rfl, rfl⟩
  | cons piece pieces ih =>
      rw [List.map_cons] at hKinds
      rcases List.map_eq_cons_iff.mp hKinds with
        ⟨⟨kind, mark⟩, events, rfl, hKind, hEvents⟩
      rcases ih hEvents (draft.add piece.item mark) with
        ⟨items, hItems, hRest⟩
      refine ⟨⟨piece.item, mark⟩ :: items, ?_, ?_⟩
      · rw [List.map_cons, List.map_cons, hItems]
      · have hAdd :
            Document.ofEvents error
                (⟨kind, mark⟩ :: events ++ rest) draft =
              Document.ofEvents error (events ++ rest)
                (draft.add piece.item mark) := by
          subst hKind
          cases piece <;> rfl
        rw [hAdd, hRest, List.reverse_cons,
          List.append_assoc, List.length_cons]
        unfold Document.Draft.add
        congr 2
        simp only
        omega

/- The document of a stream of the events of pieces. -/
theorem exists_ofEvents_document
    (error : Option SyntaxError)
    {pieces : List Piece}
    {events : List Event}
    (hKinds :
      events.map Event.kind = documentEvents pieces) :
    ∃ items : List Item,
      items.map Item.kind = pieces.map Piece.item ∧
        Document.ofEvents error events {} =
          ({ items := items, size := pieces.length },
            true) := by
  rcases List.map_eq_cons_iff.mp hKinds with
    ⟨⟨_, start⟩, afterStart, rfl, rfl, hAfterStart⟩
  rcases List.map_eq_cons_iff.mp hAfterStart with
    ⟨⟨_, opening⟩, afterOpening, rfl, rfl, hAfterOpening⟩
  rcases List.map_eq_append_iff.mp hAfterOpening with
    ⟨events, ending, rfl, hPieces, hEnding⟩
  rcases List.map_eq_cons_iff.mp hEnding with
    ⟨⟨_, closing⟩, afterClosing, rfl, rfl, hAfterClosing⟩
  rcases List.map_eq_singleton_iff.mp hAfterClosing with
    ⟨⟨_, stop⟩, rfl, rfl⟩
  rcases exists_ofEvents error
      [⟨.documentEnd, closing⟩, ⟨.streamEnd, stop⟩] hPieces
      {} with
    ⟨items, hItems, hDraft⟩
  refine ⟨items, hItems, ?_⟩
  change Document.ofEvents error (events ++ _) {} = _
  rw [hDraft]
  simp [Document.ofEvents, Document.Draft.finish]

/-
  A text with the events of a value's pieces is read as the
  tree of the value.
-/
theorem Spelling.IsFaithful.ofText_of_events
    {spelling : Spelling}
    (hFaithful : spelling.IsFaithful)
    {value : Value}
    (hDepth : value.nesting ≤ Node.maxDepth)
    (hKeys : value.hasDistinctKeys = true)
    {text : String}
    (hEvents :
      (EventStream.ofText text.toList).events.map
          Event.kind =
        documentEvents (spelling.pieces value)) :
    Node.ofText text = .ok (Node.ofValue value) := by
  rcases exists_ofEvents_document
      (EventStream.ofText text.toList).error hEvents with
    ⟨items, hItems, hDocument⟩
  let document : Document :=
    { items := items
      size := (spelling.pieces value).length }
  have hRead :=
    hFaithful.reads_pieces value hDepth
      (Nat.le_refl document.size) hKeys .root items [] 0
      hItems
  rw [List.append_nil] at hRead
  have hSome : items.isEmpty = false := by
    rcases pieces_eq_cons spelling value with
      ⟨first, more, hPieces, _⟩
    rw [hPieces] at hItems
    cases items with
    | nil => cases hItems
    | cons item rest => rfl
  unfold Node.ofText Read.wholeText Document.ofText
  simp only [hDocument, Document.isEmpty, hSome,
    Bool.false_and, Bool.false_eq_true, if_false]
  change Except.bind (Node.read _ _ _ _) _ = _
  rw [hRead]
  rfl

/-
  A text with the events of a value's pieces is read as the
  value, unless it looks blank.
-/
theorem Spelling.IsFaithful.parseText_of_events
    {spelling : Spelling}
    (hFaithful : spelling.IsFaithful)
    {value : Value}
    (hDepth : value.nesting ≤ Node.maxDepth)
    (hKeys : value.hasDistinctKeys = true)
    {text : String}
    (hBlank : ¬ Text.IsBlankText text)
    (hEvents :
      (EventStream.ofText text.toList).events.map
          Event.kind =
        documentEvents (spelling.pieces value)) :
    parseText text = .ok value := by
  unfold parseText
  rw [if_neg hBlank,
    hFaithful.ofText_of_events hDepth hKeys hEvents]
  simp only [Node.toValue_ofValue value hKeys]

end Yaml

end Transclusion
