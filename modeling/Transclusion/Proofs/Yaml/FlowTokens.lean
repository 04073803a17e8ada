import Transclusion.Proofs.Yaml.Derivation

/-
  Values between brackets and braces.

  Key definitions include:
    * `Transclusion.Yaml.Spelling.flowTokens`

  Key theorems include:
    * `Transclusion.Yaml.Spelling.produces_flowTokens`
    * `Transclusion.Yaml.Spelling.events_of_flowTokens`

  The tokens of a value in flow notation give the events of
  its pieces.
-/

------------------------------------------------------------
-- Flow Notation
------------------------------------------------------------

namespace Transclusion

namespace Yaml

namespace Spelling

variable {spelling : Spelling}

/- The token of a text. -/
def textToken
    (spelling : Spelling)
    (s : String) : TokenKind :=
  .scalar s.toList (spelling.style s.toList)

/- The text and the style of a value that is plain. -/
def scalarToken
    (spelling : Spelling) : Value → TokenKind
  | .null => .scalar "null".toList .plain
  | .bool b => .scalar (boolText b).toList .plain
  | .number n =>
      .scalar (n.text spelling.layout).toList .plain
  | .string s => spelling.textToken s
  | .array _ => .flowSequenceStart
  | .object _ => .flowMappingStart

mutual

/- The tokens of a value between brackets and braces. -/
def flowTokens
    (spelling : Spelling) : Value → List TokenKind
  | .array [] => [.flowSequenceStart, .flowSequenceEnd]
  | .array (item :: rest) =>
      .flowSequenceStart :: spelling.flowTokens item ++
        spelling.flowItems rest ++ [.flowSequenceEnd]
  | .object [] => [.flowMappingStart, .flowMappingEnd]
  | .object ((key, value) :: rest) =>
      .flowMappingStart :: .key :: spelling.textToken key ::
        .value :: spelling.flowTokens value ++
        spelling.flowFields rest ++ [.flowMappingEnd]
  | value => [spelling.scalarToken value]

/- The tokens of the items after the first one. -/
def flowItems
    (spelling : Spelling) : List Value → List TokenKind
  | [] => []
  | item :: rest =>
      .flowEntry :: spelling.flowTokens item ++
        spelling.flowItems rest

/- The tokens of the fields after the first one. -/
def flowFields
    (spelling : Spelling) :
    List (String × Value) → List TokenKind
  | [] => []
  | (key, value) :: rest =>
      .flowEntry :: .key :: spelling.textToken key ::
        .value :: spelling.flowTokens value ++
        spelling.flowFields rest

end

/- The tokens of a value begin a node. -/
theorem flowTokens_eq_cons
    (spelling : Spelling)
    (value : Value) :
    ∃ first more,
      spelling.flowTokens value = first :: more ∧
        first.beginsNode = true := by
  match value with
  | .null => exact ⟨_, _, rfl, rfl⟩
  | .bool b => exact ⟨_, _, rfl, rfl⟩
  | .number n => exact ⟨_, _, rfl, rfl⟩
  | .string s => exact ⟨_, _, rfl, rfl⟩
  | .array [] => exact ⟨_, _, rfl, rfl⟩
  | .array (item :: rest) => exact ⟨_, _, rfl, rfl⟩
  | .object [] => exact ⟨_, _, rfl, rfl⟩
  | .object (field :: rest) => exact ⟨_, _, rfl, rfl⟩

/- A plain value is one scalar. -/
theorem produces_scalarToken
    {value : Value}
    (hPlain : value.kind = .plain)
    (block indentless : Bool)
    {kinds : List TokenKind}
    {now : Expectation}
    {later : List Expectation} :
    Produces (Derive.node block indentless)
      (spelling.scalarToken value :: kinds) (now :: later)
      (spelling.pieces value) kinds now later := by
  cases value with
  | null => exact produces_scalar block indentless _ _
  | bool b => exact produces_scalar block indentless _ _
  | number n => exact produces_scalar block indentless _ _
  | string s => exact produces_scalar block indentless _ _
  | array items => cases hPlain
  | object fields => cases hPlain

/- A plain value has one token. -/
theorem flowTokens_of_plain
    {value : Value}
    (hPlain : value.kind = .plain) :
    spelling.flowTokens value =
      [spelling.scalarToken value] := by
  cases value with
  | null => rfl
  | bool b => rfl
  | number n => rfl
  | string s => rfl
  | array items => cases hPlain
  | object fields => cases hPlain

/- A key with its value, and what follows them. -/
theorem produces_flowField
    {value : Value}
    {kinds kindsAfter : List TokenKind}
    {later laterAfter : List Expectation}
    {now : Expectation}
    {more : List Piece}
    (key : String)
    (hValue :
      ∀ kinds now later,
        Produces (Derive.node false false)
          (spelling.flowTokens value ++ kinds)
          (now :: later) (spelling.pieces value) kinds now
          later)
    (hMore :
      Produces (Derive.flowMappingKey false) kinds later more
        kindsAfter now laterAfter) :
    Produces (Derive.flowMappingKey true)
      (.key :: spelling.textToken key :: .value ::
        spelling.flowTokens value ++ kinds)
      later
      (spelling.textPiece key :: spelling.pieces value ++
        more)
      kindsAfter now laterAfter := by
  have hNode := hValue kinds .flowMappingKey later
  rcases flowTokens_eq_cons spelling value with
    ⟨first, rest, hTokens, hFirst⟩
  rw [hTokens] at hNode ⊢
  have hKey :
      Produces (Derive.node false false)
        (spelling.textToken key :: .value ::
          (first :: rest ++ kinds))
        (.flowMappingValue :: later)
        [spelling.textPiece key]
        (.value :: (first :: rest ++ kinds))
        .flowMappingValue later :=
    produces_scalar false false _ _
  exact
    ((hKey.flowMappingFirst rfl).trans
      (by rintro ⟨⟩ rfl; rfl)
      (hNode.flowMappingValue hFirst)).trans
      (by rintro ⟨⟩ rfl; rfl) hMore

/- The items after the first one, up to the closing bracket. -/
theorem produces_flowItems
    {items : List Value}
    (hItems :
      ∀ item ∈ items, ∀ kinds now later,
        Produces (Derive.node false false)
          (spelling.flowTokens item ++ kinds) (now :: later)
          (spelling.pieces item) kinds now later)
    (kinds : List TokenKind)
    (now : Expectation)
    (later : List Expectation) :
    Produces (Derive.flowSequenceEntry false)
      (spelling.flowItems items ++
        .flowSequenceEnd :: kinds)
      (now :: later)
      (spelling.itemPieces items ++ [.sequenceEnd]) kinds
      now later := by
  induction items with
  | nil => exact produces_flowSequenceEnd false
  | cons item rest ih =>
      rw [List.forall_mem_cons] at hItems
      have hItem :=
        hItems.1
          (spelling.flowItems rest ++
            .flowSequenceEnd :: kinds)
          .flowSequenceEntry (now :: later)
      rcases flowTokens_eq_cons spelling item with
        ⟨first, more, hTokens, hFirst⟩
      rw [hTokens] at hItem
      rw [flowItems, itemPieces, hTokens, List.append_assoc,
        List.append_assoc]
      exact
        (hItem.flowSequenceFirst hFirst).flowSequenceNext.trans
          (by rintro ⟨⟩ rfl; rfl) (ih hItems.2)

/- The fields after the first one, up to the closing brace. -/
theorem produces_flowFields
    {fields : Fields}
    (hFields :
      ∀ field ∈ fields, ∀ kinds now later,
        Produces (Derive.node false false)
          (spelling.flowTokens field.2 ++ kinds)
          (now :: later) (spelling.pieces field.2) kinds now
          later)
    (kinds : List TokenKind)
    (now : Expectation)
    (later : List Expectation) :
    Produces (Derive.flowMappingKey false)
      (spelling.flowFields fields ++
        .flowMappingEnd :: kinds)
      (now :: later)
      (spelling.fieldPieces fields ++ [.mappingEnd]) kinds
      now later := by
  induction fields with
  | nil => exact produces_flowMappingEnd false
  | cons field rest ih =>
      rw [List.forall_mem_cons] at hFields
      have hField :=
        produces_flowField field.1 hFields.1 (ih hFields.2)
      rcases field with ⟨key, value⟩
      rw [flowFields, fieldPieces]
      simp only [List.cons_append, List.append_assoc]
        at hField ⊢
      exact hField.flowMappingNext

/-
  The tokens of a value between brackets and braces are a
  node with its pieces.
-/
theorem produces_flowTokens
    (spelling : Spelling)
    (value : Value)
    (block indentless : Bool)
    (kinds : List TokenKind)
    (now : Expectation)
    (later : List Expectation) :
    Produces (Derive.node block indentless)
      (spelling.flowTokens value ++ kinds) (now :: later)
      (spelling.pieces value) kinds now later := by
  induction value using Value.induction
    generalizing block indentless kinds now later with
  | plain value hPlain =>
      rw [flowTokens_of_plain hPlain]
      exact produces_scalarToken hPlain block indentless
  | array items ih =>
      cases items with
      | nil =>
          exact
            (produces_flowSequenceStart block
              indentless).trans
              (by rintro ⟨⟩ rfl; rfl)
              (produces_flowSequenceEnd true).enter
      | cons item rest =>
          rw [List.forall_mem_cons] at ih
          have hItem :=
            ih.1 false false
              (spelling.flowItems rest ++
                .flowSequenceEnd :: kinds)
              .flowSequenceEntry (now :: later)
          have hRest :=
            produces_flowItems
              (fun item hMem => ih.2 item hMem false false)
              kinds now later
          rcases flowTokens_eq_cons spelling item with
            ⟨first, more, hTokens, hFirst⟩
          rw [hTokens] at hItem
          rw [flowTokens, pieces, itemPieces, hTokens]
          simp only [List.cons_append, List.append_assoc,
            List.nil_append]
          exact
            (produces_flowSequenceStart block
              indentless).trans
              (by rintro ⟨⟩ rfl; rfl)
              ((hItem.flowSequenceFirst hFirst).trans
                (by rintro ⟨⟩ rfl; rfl) hRest).enter
  | object fields ih =>
      cases fields with
      | nil =>
          exact
            (produces_flowMappingStart block
              indentless).trans
              (by rintro ⟨⟩ rfl; rfl)
              (produces_flowMappingEnd true).enter
      | cons field rest =>
          rw [List.forall_mem_cons] at ih
          have hRest :=
            produces_flowFields
              (fun field hMem => ih.2 field hMem false false)
              kinds now later
          have hField :=
            produces_flowField field.1 (ih.1 false false)
              hRest
          rcases field with ⟨key, value⟩
          rw [flowTokens, pieces, fieldPieces]
          simp only [List.cons_append, List.append_assoc,
            List.nil_append] at hField ⊢
          exact
            (produces_flowMappingStart block
              indentless).trans
              (by rintro ⟨⟩ rfl; rfl) hField.enter

/- Items have no more pieces than tokens. -/
theorem length_itemPieces_le
    {items : List Value}
    (hItems :
      ∀ item ∈ items,
        (spelling.pieces item).length ≤
          (spelling.flowTokens item).length) :
    (spelling.itemPieces items).length ≤
      (spelling.flowItems items).length := by
  induction items with
  | nil => exact Nat.le_refl _
  | cons item rest ih =>
      rw [List.forall_mem_cons] at hItems
      have hRest := ih hItems.2
      rw [itemPieces, flowItems]
      simp only [List.length_append, List.length_cons]
      omega

/- Fields have no more pieces than tokens. -/
theorem length_fieldPieces_le
    {fields : Fields}
    (hFields :
      ∀ field ∈ fields,
        (spelling.pieces field.2).length ≤
          (spelling.flowTokens field.2).length) :
    (spelling.fieldPieces fields).length ≤
      (spelling.flowFields fields).length := by
  induction fields with
  | nil => exact Nat.le_refl _
  | cons field rest ih =>
      rw [List.forall_mem_cons] at hFields
      have hRest := ih hFields.2
      have hValue := hFields.1
      rcases field with ⟨key, value⟩
      rw [fieldPieces, flowFields]
      simp only [List.length_append, List.length_cons]
        at hValue ⊢
      omega

/- A value has no more pieces than tokens. -/
theorem length_pieces_le
    (spelling : Spelling)
    (value : Value) :
    (spelling.pieces value).length ≤
      (spelling.flowTokens value).length := by
  induction value using Value.induction with
  | plain value hPlain =>
      rw [flowTokens_of_plain hPlain]
      cases value with
      | null => exact Nat.le_refl _
      | bool b => exact Nat.le_refl _
      | number n => exact Nat.le_refl _
      | string s => exact Nat.le_refl _
      | array items => cases hPlain
      | object fields => cases hPlain
  | array items ih =>
      cases items with
      | nil => exact Nat.le_refl _
      | cons item rest =>
          rw [List.forall_mem_cons] at ih
          have hRest := length_itemPieces_le ih.2
          rw [pieces, itemPieces, flowTokens]
          simp only [List.length_append, List.length_cons]
          omega
  | object fields ih =>
      cases fields with
      | nil => exact Nat.le_refl _
      | cons field rest =>
          rw [List.forall_mem_cons] at ih
          have hRest := length_fieldPieces_le ih.2
          have hValue := ih.1
          rcases field with ⟨key, value⟩
          rw [pieces, fieldPieces, flowTokens]
          simp only [List.length_append, List.length_cons]
            at hValue ⊢
          omega

/-
  A stream of the tokens of a value gives the events of its
  pieces.
-/
theorem events_of_flowTokens
    {stream : TokenStream}
    {value : Value}
    (hTokens :
      stream.tokens.map Token.kind =
        .streamStart :: spelling.flowTokens value ++
          [.streamEnd]) :
    (EventStream.ofTokens stream).events.map Event.kind =
      documentEvents (spelling.pieces value) := by
  have hNode :=
    produces_flowTokens spelling value true
      false [.streamEnd] .documentEnd []
  have hLength := length_pieces_le spelling value
  have hTokensLength := congrArg List.length hTokens
  rw [List.length_map, List.length_append, List.length_cons]
    at hTokensLength
  rcases flowTokens_eq_cons spelling value with
    ⟨first, more, hCons, hFirst⟩
  rw [hCons] at hTokens hNode
  exact events_ofTokens hTokens hFirst hNode (by omega)

end Spelling

end Yaml

end Transclusion
