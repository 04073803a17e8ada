import Transclusion.Proofs.Yaml.FlowTokens
import Transclusion.Value.Yaml

/-
  Values in block collections.

  Key definitions include:
    * `Transclusion.Yaml.Spelling.blockTokens`

  Key theorems include:
    * `Transclusion.Yaml.Spelling.produces_blockTokens`
    * `Transclusion.Yaml.Spelling.events_of_blockTokens`

  Under a simple key a sequence has no tokens of its own for
  its start and its end.  It ends at the first token that is
  no entry.
-/

------------------------------------------------------------
-- Block Notation
------------------------------------------------------------

namespace Transclusion

namespace Yaml

namespace Spelling

variable {spelling : Spelling}

mutual

/- The tokens of a value, under a simple key or not. -/
def blockTokens
    (spelling : Spelling)
    (simple : Bool) : Value → List TokenKind
  | .array (item :: rest) =>
      (if simple then [] else [.blockSequenceStart]) ++
        .blockEntry :: spelling.blockTokens false item ++
          (spelling.blockItems rest ++
            if simple then [] else [.blockEnd])
  | .object ((key, value) :: rest) =>
      .blockMappingStart :: .key :: spelling.textToken key ::
        .value ::
          spelling.blockTokens (Block.isSimpleKey key) value ++
            (spelling.blockFields rest ++ [.blockEnd])
  | value => spelling.flowTokens value

/- The tokens of the items after the first one. -/
def blockItems
    (spelling : Spelling) : List Value → List TokenKind
  | [] => []
  | item :: rest =>
      .blockEntry :: spelling.blockTokens false item ++
        spelling.blockItems rest

/- The tokens of the fields after the first one. -/
def blockFields
    (spelling : Spelling) :
    List (String × Value) → List TokenKind
  | [] => []
  | (key, value) :: rest =>
      .key :: spelling.textToken key :: .value ::
        spelling.blockTokens (Block.isSimpleKey key) value ++
          spelling.blockFields rest

end

/- A plain value has one token. -/
theorem blockTokens_of_plain
    {value : Value}
    (hPlain : value.kind = .plain)
    (simple : Bool) :
    spelling.blockTokens simple value =
      [spelling.scalarToken value] := by
  cases value with
  | null => rfl
  | bool b => rfl
  | number n => rfl
  | string s => rfl
  | array items => cases hPlain
  | object fields => cases hPlain

/- The tokens of a value begin a node, or an entry. -/
theorem blockTokens_eq_cons
    (spelling : Spelling)
    (simple : Bool)
    (value : Value) :
    ∃ first more,
      spelling.blockTokens simple value = first :: more ∧
        (first.beginsNode = true ∨
          simple = true ∧ first = .blockEntry) := by
  match value with
  | .null => exact ⟨_, _, rfl, Or.inl rfl⟩
  | .bool b => exact ⟨_, _, rfl, Or.inl rfl⟩
  | .number n => exact ⟨_, _, rfl, Or.inl rfl⟩
  | .string s => exact ⟨_, _, rfl, Or.inl rfl⟩
  | .array [] => exact ⟨_, _, rfl, Or.inl rfl⟩
  | .array (item :: rest) =>
      cases simple with
      | false => exact ⟨_, _, rfl, Or.inl rfl⟩
      | true => exact ⟨_, _, rfl, Or.inr ⟨rfl, rfl⟩⟩
  | .object [] => exact ⟨_, _, rfl, Or.inl rfl⟩
  | .object ((key, value) :: rest) =>
      exact ⟨_, _, rfl, Or.inl rfl⟩

end Spelling

end Yaml

end Transclusion

------------------------------------------------------------
-- Derivations
------------------------------------------------------------

namespace Transclusion

namespace Yaml

namespace Spelling

variable {spelling : Spelling}

/-
  The tokens of a value are a node with its pieces, in front
  of a token that is no entry if the value stands under a
  simple key.
-/
def IsBlockNode
    (spelling : Spelling)
    (simple : Bool)
    (value : Value) : Prop :=
  ∀ indentless first more now later,
    (simple = true →
        indentless = true ∧ first ≠ .blockEntry) →
      Produces (Derive.node true indentless)
        (spelling.blockTokens simple value ++ first :: more)
        (now :: later) (spelling.pieces value) (first :: more)
        now later

/-
  A value in front of other tokens begins with the token of
  a node, or of an entry, and is read as a node from there.
-/
theorem IsBlockNode.exists_first
    {simple indentless : Bool}
    {value : Value}
    {next : TokenKind}
    (hNode : spelling.IsBlockNode simple value)
    (hNext :
      simple = true →
        indentless = true ∧ next ≠ .blockEntry)
    (others : List TokenKind)
    (now : Expectation)
    (later : List Expectation) :
    ∃ first more,
      spelling.blockTokens simple value ++ next :: others =
          first :: more ∧
        (first.beginsNode = true ∨
            simple = true ∧ first = .blockEntry) ∧
          Produces (Derive.node true indentless)
            (first :: more) (now :: later)
            (spelling.pieces value) (next :: others) now
            later := by
  have hTokens :=
    hNode indentless next others now later hNext
  rcases blockTokens_eq_cons spelling simple value with
    ⟨first, more, hCons, hFirst⟩
  rw [hCons] at hTokens ⊢
  exact ⟨first, _, rfl, hFirst, hTokens⟩

/- An item in front of other tokens is a node. -/
theorem IsBlockNode.exists_item
    {item : Value}
    (hItem : spelling.IsBlockNode false item)
    (kinds : List TokenKind)
    (hKinds : kinds ≠ [])
    (now : Expectation)
    (later : List Expectation) :
    ∃ first more,
      spelling.blockTokens false item ++ kinds =
          first :: more ∧
        first.beginsNode = true ∧
          Produces (Derive.node true false) (first :: more)
            (now :: later) (spelling.pieces item) kinds now
            later := by
  rcases List.exists_cons_of_ne_nil hKinds with
    ⟨next, others, rfl⟩
  rcases hItem.exists_first Bool.noConfusion others now
      later with
    ⟨first, more, hTokens, hFirst, hNode⟩
  exact ⟨first, more, hTokens, by simpa using hFirst, hNode⟩

/- The entries of a block sequence, up to its end. -/
theorem produces_blockItems
    {items : List Value}
    (hItems :
      ∀ item ∈ items, spelling.IsBlockNode false item)
    (kinds : List TokenKind)
    (now : Expectation)
    (later : List Expectation) :
    Produces Derive.sequenceEntry
      (spelling.blockItems items ++ .blockEnd :: kinds)
      (now :: later)
      (spelling.itemPieces items ++ [.sequenceEnd]) kinds now
      later := by
  induction items with
  | nil => exact produces_blockSequenceEnd
  | cons item items ih =>
      rw [List.forall_mem_cons] at hItems
      rcases hItems.1.exists_item
          (spelling.blockItems items ++ .blockEnd :: kinds)
          (by simp) .sequenceEntry (now :: later) with
        ⟨first, more, hTokens, hFirst, hItem⟩
      rw [blockItems, itemPieces]
      simp only [List.cons_append, List.append_assoc]
      rw [hTokens]
      exact
        (hItem.sequenceEntry hFirst).trans
          (by rintro ⟨⟩ rfl; rfl) (ih hItems.2)

/- The entries of a sequence at the column of its key. -/
theorem produces_indentlessItems
    {items : List Value}
    (hItems :
      ∀ item ∈ items, spelling.IsBlockNode false item)
    {last : TokenKind}
    (hLast : last ≠ .blockEntry)
    (kinds : List TokenKind)
    (now : Expectation)
    (later : List Expectation) :
    Produces Derive.indentlessEntry
      (spelling.blockItems items ++ last :: kinds)
      (now :: later)
      (spelling.itemPieces items ++ [.sequenceEnd])
      (last :: kinds) now later := by
  induction items with
  | nil => exact produces_indentlessEnd hLast
  | cons item items ih =>
      rw [List.forall_mem_cons] at hItems
      rcases hItems.1.exists_item
          (spelling.blockItems items ++ last :: kinds)
          (by simp) .indentlessEntry (now :: later) with
        ⟨first, more, hTokens, hFirst, hItem⟩
      rw [blockItems, itemPieces]
      simp only [List.cons_append, List.append_assoc]
      rw [hTokens]
      exact
        (hItem.indentlessEntry hFirst).trans
          (by rintro ⟨⟩ rfl; rfl) (ih hItems.2)

/- The fields of a block mapping, up to its end. -/
theorem produces_blockFields
    {fields : Fields}
    (hFields :
      ∀ field ∈ fields,
        ∀ simple, spelling.IsBlockNode simple field.2)
    (kinds : List TokenKind)
    (now : Expectation)
    (later : List Expectation) :
    Produces Derive.mappingKey
      (spelling.blockFields fields ++ .blockEnd :: kinds)
      (now :: later)
      (spelling.fieldPieces fields ++ [.mappingEnd]) kinds now
      later := by
  induction fields with
  | nil => exact produces_blockMappingEnd
  | cons field fields ih =>
      rw [List.forall_mem_cons] at hFields
      have hRest := ih hFields.2
      have hValue := hFields.1
      rcases field with ⟨key, value⟩
      rw [blockFields, fieldPieces]
      simp only [List.cons_append, List.append_assoc]
      have hNext :
          ∃ next others,
            spelling.blockFields fields ++ .blockEnd :: kinds =
                next :: others ∧
              next ≠ .blockEntry := by
        cases fields with
        | nil => exact ⟨_, _, rfl, TokenKind.noConfusion⟩
        | cons field fields =>
            exact ⟨_, _, rfl, TokenKind.noConfusion⟩
      rcases hNext with ⟨next, others, hNext, hEntry⟩
      rw [hNext] at hRest ⊢
      rcases (hValue (Block.isSimpleKey key)).exists_first
          (fun _ => ⟨rfl, hEntry⟩) others .mappingKey
          (now :: later) with
        ⟨first, more, hTokens, hFirst, hNode⟩
      rw [hTokens]
      have hKey :
          Produces (Derive.node true true)
            (spelling.textToken key :: .value :: first :: more)
            (.mappingValue :: now :: later)
            [spelling.textPiece key]
            (.value :: first :: more)
            .mappingValue (now :: later) :=
        produces_scalar true true _ _
      have hStart :
          first.beginsNode = true ∨ first = .blockEntry :=
        hFirst.imp_right And.right
      exact
        ((hKey.mappingKey rfl).trans
          (by rintro ⟨⟩ rfl; rfl)
          (hNode.mappingValue hStart)).trans
          (by rintro ⟨⟩ rfl; rfl) hRest

/- The tokens of a value in blocks are a node. -/
theorem produces_blockTokens
    (spelling : Spelling)
    (value : Value)
    (simple : Bool) :
    spelling.IsBlockNode simple value := by
  induction value using Value.induction
    generalizing simple with
  | plain value hPlain =>
      intro indentless first more now later _
      rw [blockTokens_of_plain hPlain]
      exact produces_scalarToken hPlain true indentless
  | array items ih =>
      intro indentless first more now later hSimple
      cases items with
      | nil =>
          exact
            spelling.produces_flowTokens (.array []) true
              indentless (first :: more) now later
      | cons item rest =>
          have hItems :
              ∀ part ∈ item :: rest,
                spelling.IsBlockNode false part :=
            fun part hMem => ih part hMem false
          cases simple with
          | false =>
              have hEntries :=
                produces_blockItems hItems (first :: more) now
                  later
              rw [blockItems] at hEntries
              rw [blockTokens, pieces]
              simp only [List.cons_append, List.append_assoc,
                List.nil_append, if_false,
                Bool.false_eq_true] at hEntries ⊢
              exact
                (produces_blockSequenceStart
                  indentless).trans
                  (by rintro ⟨⟩ rfl; rfl) hEntries.enter
          | true =>
              rcases hSimple rfl with ⟨rfl, hFirst⟩
              have hEntries :=
                produces_indentlessItems hItems hFirst more now
                  later
              rw [blockItems] at hEntries
              rw [blockTokens, pieces]
              simp only [List.cons_append, List.append_assoc,
                List.nil_append, if_true] at hEntries ⊢
              exact
                produces_indentlessStart.trans
                  (by rintro ⟨⟩ rfl; rfl) hEntries
  | object fields ih =>
      intro indentless first more now later _
      cases fields with
      | nil =>
          exact
            spelling.produces_flowTokens (.object []) true
              indentless (first :: more) now later
      | cons field rest =>
          have hFields :=
            produces_blockFields ih (first :: more) now later
          rcases field with ⟨key, value⟩
          rw [blockFields] at hFields
          rw [blockTokens, pieces]
          simp only [List.cons_append, List.append_assoc,
            List.nil_append] at hFields ⊢
          exact
            (produces_blockMappingStart indentless).trans
              (by rintro ⟨⟩ rfl; rfl) hFields.enter

end Spelling

end Yaml

end Transclusion

------------------------------------------------------------
-- Documents
------------------------------------------------------------

namespace Transclusion

namespace Yaml

namespace Spelling

variable {spelling : Spelling}

/- Entries have no more than twice as many pieces. -/
theorem length_itemPieces_le_blockItems
    {items : List Value}
    (hItems :
      ∀ item ∈ items,
        (spelling.pieces item).length ≤
          2 * (spelling.blockTokens false item).length) :
    (spelling.itemPieces items).length + 2 * items.length ≤
      2 * (spelling.blockItems items).length := by
  induction items with
  | nil => exact Nat.le_refl _
  | cons item rest ih =>
      rw [List.forall_mem_cons] at hItems
      have hRest := ih hItems.2
      rw [itemPieces, blockItems]
      simp only [List.length_append, List.length_cons]
      omega

/- Fields have no more than twice as many pieces. -/
theorem length_fieldPieces_le_blockFields
    {fields : Fields}
    (hFields :
      ∀ field ∈ fields, ∀ simple,
        (spelling.pieces field.2).length ≤
          2 * (spelling.blockTokens simple field.2).length) :
    (spelling.fieldPieces fields).length ≤
      2 * (spelling.blockFields fields).length := by
  induction fields with
  | nil => exact Nat.le_refl _
  | cons field rest ih =>
      rw [List.forall_mem_cons] at hFields
      have hRest := ih hFields.2
      have hValue :=
        hFields.1 (Block.isSimpleKey field.1)
      rcases field with ⟨key, value⟩
      rw [fieldPieces, blockFields]
      simp only [List.length_append, List.length_cons]
        at hValue ⊢
      omega

/- A value has no more than twice as many pieces. -/
theorem length_pieces_le_blockTokens
    (spelling : Spelling)
    (value : Value)
    (simple : Bool) :
    (spelling.pieces value).length ≤
      2 * (spelling.blockTokens simple value).length := by
  induction value using Value.induction
    generalizing simple with
  | plain value hPlain =>
      have hFlow := length_pieces_le spelling value
      rw [flowTokens_of_plain hPlain] at hFlow
      rw [blockTokens_of_plain hPlain]
      omega
  | array items ih =>
      cases items with
      | nil => exact Nat.le_of_ble_eq_true rfl
      | cons item rest =>
          have hItems :=
            length_itemPieces_le_blockItems
              (fun part hMem => ih part hMem false)
          rw [blockItems] at hItems
          rw [pieces, blockTokens]
          simp only [List.length_append, List.length_cons,
            List.length_nil] at hItems ⊢
          omega
  | object fields ih =>
      cases fields with
      | nil => exact Nat.le_of_ble_eq_true rfl
      | cons field rest =>
          have hFields := length_fieldPieces_le_blockFields ih
          rcases field with ⟨key, value⟩
          rw [blockFields] at hFields
          rw [pieces, blockTokens]
          simp only [List.length_append, List.length_cons,
            List.length_nil] at hFields ⊢
          omega

/-
  A stream of the tokens of a value in blocks gives the
  events of its pieces.
-/
theorem events_of_blockTokens
    {stream : TokenStream}
    {value : Value}
    (hTokens :
      stream.tokens.map Token.kind =
        .streamStart :: spelling.blockTokens false value ++
          [.streamEnd]) :
    (EventStream.ofTokens stream).events.map Event.kind =
      documentEvents (spelling.pieces value) := by
  have hLength :=
    length_pieces_le_blockTokens spelling value false
  have hTokensLength := congrArg List.length hTokens
  rw [List.length_map, List.length_append, List.length_cons]
    at hTokensLength
  rcases IsBlockNode.exists_item
      (produces_blockTokens spelling value false)
      [.streamEnd] (List.cons_ne_nil _ _) .documentEnd [] with
    ⟨first, more, hCons, hFirst, hNode⟩
  rw [List.cons_append, hCons] at hTokens
  exact events_ofTokens hTokens hFirst hNode (by omega)

end Spelling

end Yaml

end Transclusion
