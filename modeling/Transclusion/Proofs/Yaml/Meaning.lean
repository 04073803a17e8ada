import Transclusion.Proofs.Yaml.Source
import Transclusion.Proofs.Yaml.WrittenScalar

/-
  What written scalars stand for, as values and as keys.

  Key definitions include:
    * `Transclusion.Yaml.IsFieldName`

  Key theorems include:
    * `Transclusion.Yaml.Scalar.bool?_of_resolve`
    * `Transclusion.Yaml.Scalar.eq_string_of_resolve`
    * `Transclusion.Yaml.Source.exists_of_value?_mapping`
    * `Transclusion.Yaml.Source.keyText?_eq_iff`

  A name that stands for itself without a tag stands for
  itself under any tag that it fits, so that it is the same
  key in a tree and in its notation.
-/

------------------------------------------------------------
-- Scalars
------------------------------------------------------------

namespace Transclusion

namespace Yaml

namespace Scalar

variable {tag : Option TagText}
variable {text read : List Char}
variable {style : ScalarStyle}
variable {scalar : Scalar}

/- An integer is one of 64 bits or a wider one. -/
theorem integer?_eq_some_cases
    (hInteger : integer? text = some scalar) :
    (∃ n, scalar = .integer n) ∨
      ∃ n, scalar = .wideInteger n := by
  rcases Option.bind_eq_some_iff.mp hInteger with
    ⟨n, _, hOf⟩
  unfold ofInteger? at hOf
  split at hOf
  · cases hOf
    exact .inl ⟨_, rfl⟩
  · split at hOf
    · cases hOf
      exact .inr ⟨_, rfl⟩
    · cases hOf

/-
  What a text without quotes stands for: nothing, the value
  of its word, a number or itself.
-/
theorem ofPlain_cases
    (text : List Char) :
    ofPlain text = .null ∨
      (∃ b, Yaml.bool? text = some b ∧
        ofPlain text = .bool b) ∨
        (∃ n, ofPlain text = .integer n) ∨
          (∃ n, ofPlain text = .wideInteger n) ∨
            (∃ d, ofPlain text = .double d) ∨
              ofPlain text = .string text := by
  unfold ofPlain
  split
  · exact .inl rfl
  cases hBool : Yaml.bool? text with
  | some b => exact .inr (.inl ⟨b, rfl, rfl⟩)
  | none =>
      cases hInteger : integer? text with
      | some scalar =>
          rcases integer?_eq_some_cases hInteger with
            ⟨n, rfl⟩ | ⟨n, rfl⟩
          · exact .inr (.inr (.inl ⟨n, rfl⟩))
          · exact .inr (.inr (.inr (.inl ⟨n, rfl⟩)))
      | none =>
          simp only
          split
          · simp
          · cases double? text <;> simp

/- What a tag demands is no text. -/
theorem scalar?_cases
    {core : CoreTag}
    (hCore : core.scalar? text = some scalar) :
    scalar = .null ∨
      (∃ b, Yaml.bool? text = some b ∧ core = .bool ∧
        scalar = .bool b) ∨
        (∃ n, scalar = .integer n) ∨
          (∃ n, scalar = .wideInteger n) ∨
            ∃ d, scalar = .double d := by
  cases core with
  | bool =>
      rcases Option.map_eq_some_iff.mp hCore with
        ⟨b, hBool, rfl⟩
      exact .inr (.inl ⟨b, hBool, rfl, rfl⟩)
  | int =>
      exact
        .inr
          (.inr
            ((integer?_eq_some_cases hCore).imp_right .inl))
  | float =>
      rcases Option.map_eq_some_iff.mp hCore with
        ⟨d, _, rfl⟩
      exact .inr (.inr (.inr (.inr ⟨d, rfl⟩)))
  | null =>
      simp only [CoreTag.scalar?] at hCore
      split at hCore
      · cases hCore
        exact .inl rfl
      · cases hCore

/-
  What a scalar stands for: what it stands for without a
  tag, its text, or what its tag demands.
-/
theorem resolve_cases
    (hScalar : resolve tag text style = .ok scalar) :
    scalar = untagged text style ∨
      scalar = .string text ∨
        ∃ core,
          tag.bind CoreTag.ofTag? = some core ∧
            core.scalar? text = some scalar := by
  cases tag with
  | none =>
      cases hScalar
      exact .inl rfl
  | some tag =>
      unfold resolve at hScalar
      simp only at hScalar
      split at hScalar
      · rename_i core hCore
        split at hScalar
        · rename_i found hFound
          cases hScalar
          exact .inr (.inr ⟨core, hCore, hFound⟩)
        · cases hScalar
      split at hScalar
      · cases hScalar
        exact .inl rfl
      · cases hScalar
        exact .inr (.inl rfl)

/- A scalar that stands for a text stands for its own. -/
theorem eq_of_resolve_eq_string
    (hScalar : resolve tag text style = .ok (.string read)) :
    read = text := by
  rcases resolve_cases hScalar with
    hUntagged | hOwn | ⟨core, _, hCore⟩
  · unfold untagged at hUntagged
    split at hUntagged
    · rcases ofPlain_cases text with
        hPlain | ⟨_, _, hPlain⟩ | ⟨_, hPlain⟩ | ⟨_, hPlain⟩ |
          ⟨_, hPlain⟩ | hPlain
      all_goals
        rw [hPlain] at hUntagged
        cases hUntagged
      rfl
    · cases hUntagged
      rfl
  · cases hOwn
    rfl
  · rcases scalar?_cases hCore with
      hEq | ⟨_, _, _, hEq⟩ | ⟨_, hEq⟩ | ⟨_, hEq⟩ | ⟨_, hEq⟩
    all_goals cases hEq

/-
  A scalar that stands for a Boolean value is its word, and
  has no quotes unless its tag demands a Boolean value.
-/
theorem bool?_of_resolve
    {b : Bool}
    (hScalar : resolve tag text style = .ok (.bool b)) :
    Yaml.bool? text = some b ∧
      (style = .plain ∨
        tag.bind CoreTag.ofTag? = some .bool) := by
  rcases resolve_cases hScalar with
    hUntagged | hOwn | ⟨core, hTag, hCore⟩
  · unfold untagged at hUntagged
    split at hUntagged
    · rename_i hStyle
      rcases ofPlain_cases text with
        hPlain | ⟨found, hBool, hPlain⟩ | ⟨_, hPlain⟩ |
          ⟨_, hPlain⟩ | ⟨_, hPlain⟩ | hPlain
      all_goals
        rw [hPlain] at hUntagged
        cases hUntagged
      exact ⟨hBool, .inl hStyle⟩
    · cases hUntagged
  · cases hOwn
  · rcases scalar?_cases hCore with
      hEq | ⟨found, hBool, rfl, hEq⟩ | ⟨_, hEq⟩ |
        ⟨_, hEq⟩ | ⟨_, hEq⟩
    all_goals cases hEq
    exact ⟨hBool, .inr hTag⟩

/-
  What reads as a text without a tag is a text under any tag
  that it fits.
-/
theorem eq_string_of_resolve
    (hReads : readsAsText text = true)
    (hScalar : resolve tag text style = .ok scalar) :
    scalar = .string text := by
  have hPlain := ofPlain_of_readsAsText hReads
  have hSpare : hasSpareZero text = false := by
    unfold readsAsText at hReads
    rw [hPlain] at hReads
    simpa using hReads
  unfold ofPlain at hPlain
  split at hPlain
  · cases hPlain
  rename_i hWord
  split at hPlain
  · cases hPlain
  rename_i hBool
  split at hPlain
  · rename_i hInteger
    rw [hPlain] at hInteger
    exact absurd hInteger integer?_ne_string
  rename_i hInteger
  rw [if_neg (by simp [hSpare])] at hPlain
  split at hPlain
  · cases hPlain
  rename_i hDouble
  rcases resolve_cases hScalar with
    hUntagged | hOwn | ⟨core, hTag, hCore⟩
  · rw [hUntagged]
    unfold untagged
    split
    · exact ofPlain_of_readsAsText hReads
    · rfl
  · exact hOwn
  · rw [not_or] at hWord
    cases core with
    | bool => simp [CoreTag.scalar?, hBool] at hCore
    | int => simp [CoreTag.scalar?, hInteger] at hCore
    | float => simp [CoreTag.scalar?, hDouble] at hCore
    | null => simp [CoreTag.scalar?, hWord.2] at hCore

end Scalar

/- The text of a number does not read as a text. -/
theorem YamlNumber.readsAsText_text
    (n : YamlNumber) :
    readsAsText n.text.toList = false := by
  have hOf
      (number : Number) :
      readsAsText (number.text Layout.yaml).toList =
        false := by
    unfold readsAsText
    rw [ofPlain_numberText (.inl rfl)]
    cases number <;> rfl
  cases n with
  | integer n => exact hOf (.integer n)
  | double d =>
      cases d with
      | finite d => exact hOf (.double d)
      | infinity negative => cases negative <;> decide
      | notANumber => decide

end Yaml

end Transclusion

------------------------------------------------------------
-- Values
------------------------------------------------------------

namespace Transclusion

namespace Yaml

namespace Scalar

/- The value of a scalar, unless it is too wide for one. -/
def value? : Scalar → Option Value
  | null => some .null
  | bool b => some (.bool b)
  | integer n => some (.number (.integer n))
  | double (.finite d) => some (.number (.double d))
  | double _ => some .null
  | string text => some (.string (String.ofList text))
  | wideInteger _ => none

/- The text of a scalar as a key. -/
def keyText? : Scalar → Option String
  | null => some "null"
  | bool b => some (boolText b)
  | integer n => some (YamlNumber.integer n).text
  | double d => some (YamlNumber.double d).text
  | string text => some (String.ofList text)
  | wideInteger _ => none

end Scalar

/- A tag adds nothing to the value of a tree. -/
theorem Node.toValue_named
    (tag : Option TagText)
    (node : Node) :
    (named tag node).toValue = node.toValue := by
  unfold named
  split
  · rw [toValue]
  · rfl

/- A tag adds nothing to the text of a key. -/
theorem Node.keyText_named
    (tag : Option TagText)
    (node : Node) :
    (named tag node).keyText = node.keyText := by
  unfold named
  split
  · rw [keyText]
  · rfl

namespace Source

variable {tag : Option TagText}
variable {text : List Char}
variable {style : ScalarStyle}
variable {value : Value}

/- The value of a scalar is that of what it stands for. -/
theorem value?_scalar
    (tag : Option TagText)
    (text : List Char)
    (style : ScalarStyle) :
    (scalar tag text style).value? =
      (Scalar.ofWritten tag text style).toOption.bind
        Scalar.value? := by
  unfold value?
  rw [node?]
  unfold Node.ofWritten
  cases Scalar.ofWritten tag text style with
  | error complaint => rfl
  | ok read =>
      cases read
      case wideInteger n => rfl
      case double d =>
        cases d <;>
          exact
            congrArg Except.toOption (Node.toValue_named _ _)
      all_goals
        exact congrArg Except.toOption (Node.toValue_named _ _)

/- The text of a scalar as a key is that as well. -/
theorem keyText?_scalar
    (tag : Option TagText)
    (text : List Char)
    (style : ScalarStyle) :
    (scalar tag text style).keyText? =
      (Scalar.ofWritten tag text style).toOption.bind
        Scalar.keyText? := by
  unfold keyText?
  rw [node?]
  unfold Node.ofWritten
  cases Scalar.ofWritten tag text style with
  | error complaint => rfl
  | ok read =>
      cases read
      case wideInteger n => rfl
      all_goals
        exact
          congrArg Except.toOption (Node.keyText_named _ _)

/- A scalar has the value of what it stands for, if any. -/
theorem exists_of_value?_scalar
    (hValue :
      (scalar tag text style).value? = some value) :
    ∃ read,
      Scalar.ofWritten tag text style = .ok read ∧
        read.value? = some value := by
  rw [value?_scalar] at hValue
  cases hRead : Scalar.ofWritten tag text style with
  | error complaint =>
      rw [hRead] at hValue
      cases hValue
  | ok read =>
      rw [hRead] at hValue
      exact ⟨read, rfl, hValue⟩

/- A scalar is no collection. -/
theorem kind_of_value?_scalar
    (hValue :
      (scalar tag text style).value? = some value) :
    value.kind = .plain := by
  rcases exists_of_value?_scalar hValue with
    ⟨read, -, hRead⟩
  cases read
  case wideInteger n => cases hRead
  case double d => cases d <;> cases hRead <;> rfl
  all_goals
    cases hRead
    rfl

/- A scalar that is a string is its own text. -/
theorem eq_of_value?_scalar_string
    {s : String}
    (hValue :
      (scalar tag text style).value? = some (.string s)) :
    s = String.ofList text := by
  rcases exists_of_value?_scalar hValue with
    ⟨read, hScalar, hRead⟩
  cases read
  case string found =>
    cases hRead
    rw [Scalar.eq_of_resolve_eq_string hScalar]
  case double d => cases d <;> cases hRead
  all_goals cases hRead

/-
  A scalar that is a Boolean value is its word, and has no
  quotes unless its tag demands a Boolean value.
-/
theorem bool?_of_value?_scalar
    {b : Bool}
    (hValue :
      (scalar tag text style).value? = some (.bool b)) :
    Yaml.bool? text = some b ∧
      (style = .plain ∨
        tag.bind CoreTag.ofTag? = some .bool) := by
  rcases exists_of_value?_scalar hValue with
    ⟨read, hScalar, hRead⟩
  cases read
  case bool found =>
    cases hRead
    have hBool := Scalar.bool?_of_resolve hScalar
    refine ⟨hBool.1, hBool.2.imp_right ?_⟩
    intro hTag
    split at hTag
    · cases hTag
    · exact hTag
  case double d => cases d <;> cases hRead
  all_goals cases hRead

/-
  What reads as a text without a tag is a string, whatever
  its tag.
-/
theorem eq_string_of_value?_scalar
    (hReads : readsAsText text = true)
    (hValue :
      (scalar tag text style).value? = some value) :
    value = .string (String.ofList text) := by
  rcases exists_of_value?_scalar hValue with
    ⟨read, hScalar, hRead⟩
  have hText := Scalar.eq_string_of_resolve hReads hScalar
  subst hText
  cases hRead
  rfl

end Source

end Yaml

end Transclusion

------------------------------------------------------------
-- Collections
------------------------------------------------------------

namespace Transclusion

namespace Yaml

namespace Source

variable {tag : Option TagText}
variable {value : Value}

/- A result that is kept is the only one. -/
theorem toOption_eq_some_iff
    {ε α : Type}
    {result : Except ε α}
    {a : α} :
    result.toOption = some a ↔ result = .ok a := by
  cases result <;> simp [Except.toOption]

/- A written value is that of the tree that is written. -/
theorem value?_eq_some_iff
    {source : Source} :
    source.value? = some value ↔
      ∃ node,
        source.node? = some node ∧
          node.toValue = .ok value := by
  unfold value?
  rw [Option.bind_eq_some_iff]
  simp only [toOption_eq_some_iff]

/- A written key is that of the tree that is written. -/
theorem keyText?_eq_some_iff
    {source : Source}
    {label : String} :
    source.keyText? = some label ↔
      ∃ node,
        source.node? = some node ∧
          node.keyText = .ok label := by
  unfold keyText?
  rw [Option.bind_eq_some_iff]
  simp only [toOption_eq_some_iff]

/- The trees of entries are those of their keys and values. -/
theorem entryNodes?_eq_some
    {entries : List (Source × Source)}
    {nodes : List (Node × Node)}
    (hNodes : entryNodes? entries = some nodes) :
    List.Forall₂
      (fun entry node =>
        entry.1.node? = some node.1 ∧
          entry.2.node? = some node.2)
      entries nodes := by
  induction entries generalizing nodes with
  | nil =>
      cases hNodes
      exact .nil
  | cons entry rest ih =>
      rcases entry with ⟨key, source⟩
      rw [entryNodes?] at hNodes
      rcases Option.bind_eq_some_iff.mp hNodes with
        ⟨name, hName, hNodes⟩
      rcases Option.bind_eq_some_iff.mp hNodes with
        ⟨node, hNode, hNodes⟩
      rcases Option.bind_eq_some_iff.mp hNodes with
        ⟨more, hMore, hEnd⟩
      cases hEnd
      exact .cons ⟨hName, hNode⟩ (ih hMore)

/- A sequence is an array. -/
theorem exists_of_value?_sequence
    {items : List Source}
    (hValue : (sequence tag items).value? = some value) :
    ∃ values, value = .array values := by
  rcases value?_eq_some_iff.mp hValue with
    ⟨node, hNode, hOk⟩
  rw [node?] at hNode
  rcases Option.map_eq_some_iff.mp hNode with
    ⟨nodes, _, rfl⟩
  rw [Node.toValue_named] at hOk
  rcases Node.toValue_sequence_eq_ok_iff.mp hOk with
    ⟨values, _, rfl⟩
  exact ⟨values, rfl⟩

/-
  A mapping is an object of the texts of its keys, all of
  them different, and of its values.
-/
theorem exists_of_value?_mapping
    {entries : List (Source × Source)}
    (hValue : (mapping tag entries).value? = some value) :
    ∃ fields,
      value = .object fields ∧
        List.Forall₂
            (fun entry field =>
              entry.1.keyText? = some field.1 ∧
                entry.2.value? = some field.2)
            entries fields ∧
          (Fields.keys fields).Nodup := by
  rcases value?_eq_some_iff.mp hValue with
    ⟨node, hNode, hOk⟩
  rw [node?] at hNode
  rcases Option.map_eq_some_iff.mp hNode with
    ⟨nodes, hNodes, rfl⟩
  rw [Node.toValue_named] at hOk
  rcases Node.toValue_mapping_eq_ok_iff.mp hOk with
    ⟨fields, hFields, rfl⟩
  rcases Node.toFields_eq_ok_iff.mp hFields with
    ⟨hEntries, hKeys, -⟩
  refine ⟨fields, rfl, ?_, hKeys⟩
  -- an entry is written as the tree that has the field
  have hWritten := entryNodes?_eq_some hNodes
  clear hNodes hOk hFields hNode hKeys hValue
  induction hWritten generalizing fields with
  | nil =>
      cases hEntries
      exact .nil
  | cons hEntry _ ih =>
      cases hEntries with
      | cons hField hRest =>
      exact
        .cons
          ⟨keyText?_eq_some_iff.mpr ⟨_, hEntry.1, hField.1⟩,
            value?_eq_some_iff.mpr ⟨_, hEntry.2, hField.2⟩⟩
          (ih _ hRest)

end Source

end Yaml

end Transclusion

------------------------------------------------------------
-- Names of Fields
------------------------------------------------------------

namespace Transclusion

namespace Yaml

/-
  Whether a name stands for itself, and is not the text of a
  collection as a key.
-/
def IsFieldName
    (name : String) : Prop :=
  readsAsText name.toList = true ∧
    name.toList.head? ≠ some '[' ∧
      name.toList.head? ≠ some '{'

instance
    (name : String) : Decidable (IsFieldName name) := by
  unfold IsFieldName
  infer_instance

/- The text of a sequence as a key begins with a bracket. -/
theorem Source.head?_keyText?_sequence
    {tag : Option TagText}
    {items : List Source}
    {label : String}
    (hKey : (sequence tag items).keyText? = some label) :
    label.toList.head? = some '[' := by
  rcases keyText?_eq_some_iff.mp hKey with
    ⟨node, hNode, hText⟩
  rw [node?] at hNode
  rcases Option.map_eq_some_iff.mp hNode with
    ⟨nodes, _, rfl⟩
  rw [Node.keyText_named, Node.keyText] at hText
  cases hItems : Node.toItems nodes with
  | error collision =>
      rw [hItems] at hText
      cases hText
  | ok values =>
      rw [hItems] at hText
      cases hText
      exact
        congrArg List.head? (String.toList_ofList)

/- The text of a mapping as a key begins with a brace. -/
theorem Source.head?_keyText?_mapping
    {tag : Option TagText}
    {entries : List (Source × Source)}
    {label : String}
    (hKey : (mapping tag entries).keyText? = some label) :
    label.toList.head? = some '\x7b' := by
  rcases keyText?_eq_some_iff.mp hKey with
    ⟨node, hNode, hText⟩
  rw [node?] at hNode
  rcases Option.map_eq_some_iff.mp hNode with
    ⟨nodes, _, rfl⟩
  rw [Node.keyText_named, Node.keyText] at hText
  cases hFields : Node.toFields [] nodes with
  | error collision =>
      rw [hFields] at hText
      cases hText
  | ok fields =>
      rw [hFields] at hText
      cases hText
      exact
        congrArg List.head? (String.toList_ofList)

/-
  The text of a key is the name of a field exactly if that
  is what is written.
-/
theorem Source.keyText?_eq_iff
    {key : Source}
    {label name : String}
    (hKey : key.keyText? = some label)
    (hName : IsFieldName name) :
    label = name ↔ key.string? = some name := by
  rcases hName with ⟨hReads, hBracket, hBrace⟩
  have hIsName {read : String} (hRead : read = name) :
      readsAsText read.toList = true :=
    hRead ▸ hReads
  cases key with
  | scalar tag text style =>
      rw [keyText?_scalar] at hKey
      rcases Option.bind_eq_some_iff.mp hKey with
        ⟨read, hScalar, hRead⟩
      rw [toOption_eq_some_iff] at hScalar
      rw [string?, Option.some.injEq]
      constructor
      · intro hLabel
        cases read
        case string found =>
          cases hRead
          rw [← Scalar.eq_of_resolve_eq_string hScalar]
          exact hLabel
        case null =>
          cases hRead
          cases hIsName hLabel
        case bool b =>
          cases hRead
          cases b <;> cases hIsName hLabel
        case wideInteger n => cases hRead
        all_goals
          cases hRead
          have hNumber := hIsName hLabel
          rw [YamlNumber.readsAsText_text] at hNumber
          cases hNumber
      · rintro rfl
        rw [String.toList_ofList] at hReads
        have hText :=
          Scalar.eq_string_of_resolve hReads hScalar
        subst hText
        cases hRead
        rfl
  | sequence tag items =>
      have hFirst := head?_keyText?_sequence hKey
      refine iff_of_false ?_ (by simp [string?])
      rintro rfl
      exact hBracket hFirst
  | mapping tag entries =>
      have hFirst := head?_keyText?_mapping hKey
      refine iff_of_false ?_ (by simp [string?])
      rintro rfl
      exact hBrace hFirst

end Yaml

end Transclusion
