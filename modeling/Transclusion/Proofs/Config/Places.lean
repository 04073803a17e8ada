import Transclusion.Proofs.Yaml.DirectReads
import Transclusion.Proofs.Yaml.Meaning

/-
  Places of records, as their notation tells them and as
  their values are read.

  Key definitions include:
    * `Transclusion.Yaml.Source.IsCommonBool`
    * `Transclusion.Yaml.Source.IsCommonChoice`
    * `Transclusion.Yaml.Source.HasCommonEntries`
    * `Transclusion.Setting`

  Key theorems include:
    * `Transclusion.Setting.exists_of_record?`
    * `Transclusion.Setting.exists_record?_iff`

  What a place tells and what is read from its value is the
  same wherever both are something.  Where only one of them
  is, that is because of a tag, a style or a collection.
-/

------------------------------------------------------------
-- Common Notation
------------------------------------------------------------

namespace Transclusion

namespace Yaml

namespace Source

/- What is written as a scalar stands for its text. -/
def IsCommonString
    (source : Source) : Prop :=
  ∀ s,
    source.string? = some s →
      source.value? = some (.string s)

/-
  A Boolean word without quotes stands for its value, so
  that no tag makes a text of it, and nothing in quotes or
  in a folded block does.
-/
def IsCommonBool : Source → Prop
  | scalar tag text style =>
      let value := (scalar tag text style).value?
      (style = .plain →
          ∀ b,
            Yaml.bool? text = some b →
              value = some (.bool b)) ∧
        (style ≠ .plain →
          style ≠ .literal →
            ∀ b, value ≠ some (.bool b))
  | _ => True

/-
  A scalar with a tag of its own is a choice neither by its
  tag nor by its text, and a mapping is none of the choices
  with nothing for a value.
-/
def IsCommonChoice
    (names : List String) : Source → Prop
  | scalar tag text style =>
      ∀ name,
        TagText.local? tag = some name →
          ¬ (name ∈ names ∧ style = .plain ∧
              (text = [] ∨ isNullWord text = true)) ∧
            String.ofList text ∉ names
  | mapping tag entries =>
      ∀ name ∈ names,
        (mapping tag entries).value? ≠
          some (.object [(name, .null)])
  | sequence _ _ => True

/-
  All keys are scalars, and what stands under the name of a
  field has common notation for that field.
-/
def HasCommonEntries
    (fields : List (String × (Source → Prop)))
    (entries : List (Source × Source)) : Prop :=
  ∀ entry ∈ entries,
    ∃ name,
      entry.1.string? = some name ∧
        ∀ field ∈ fields,
          field.1 = name → field.2 entry.2

end Source

end Yaml

end Transclusion

------------------------------------------------------------
-- Scalars
------------------------------------------------------------

namespace Transclusion

namespace Yaml

namespace Source

variable {source : Source}
variable {value meant : Value}

/- A collection is read as no string. -/
theorem read_string_eq_ok
    (hRead : Shape.read .string value = .ok meant) :
    ∃ s, value = .string s ∧ meant = .string s := by
  cases value
  case string s =>
    cases hRead
    exact ⟨s, rfl, rfl⟩
  all_goals cases hRead

/- Only a Boolean value is read as one. -/
theorem read_bool_eq_ok
    (hRead : Shape.read .bool value = .ok meant) :
    ∃ b, value = .bool b ∧ meant = .bool b := by
  cases value
  case bool b =>
    cases hRead
    exact ⟨b, rfl, rfl⟩
  all_goals cases hRead

/- A string that is told and read is the same. -/
theorem eq_of_string?
    (hValue : source.value? = some value)
    {s : String}
    (hTold : source.string? = some s)
    (hRead : Shape.read .string value = .ok meant) :
    .string s = meant := by
  rcases read_string_eq_ok hRead with ⟨read, rfl, rfl⟩
  cases source with
  | scalar tag text style =>
      cases hTold
      rw [eq_of_value?_scalar_string hValue]
  | sequence tag items => cases hTold
  | mapping tag entries => cases hTold

/- Common notation of a string is told exactly if it is read. -/
theorem exists_string?_iff
    (hValue : source.value? = some value)
    (hCommon : source.IsCommonString) :
    (∃ s, source.string? = some s) ↔
      ∃ meant, Shape.read .string value = .ok meant := by
  constructor
  · rintro ⟨s, hTold⟩
    have hString := hCommon s hTold
    rw [hValue, Option.some.injEq] at hString
    subst hString
    exact ⟨.string s, rfl⟩
  · rintro ⟨meant, hRead⟩
    rcases read_string_eq_ok hRead with ⟨s, rfl, rfl⟩
    cases source with
    | scalar tag text style => exact ⟨_, rfl⟩
    | sequence tag items =>
        rcases exists_of_value?_sequence hValue with ⟨_, hEq⟩
        cases hEq
    | mapping tag entries =>
        rcases exists_of_value?_mapping hValue with
          ⟨_, hEq, _⟩
        cases hEq

/- A Boolean value that is told is that of its word. -/
theorem bool?_scalar_eq_some
    {tag : Option TagText}
    {text : List Char}
    {style : ScalarStyle}
    {b : Bool} :
    (scalar tag text style).bool? = some b ↔
      Yaml.bool? text = some b ∧
        (style = .plain ∨
          style = .literal ∧
            tag.bind CoreTag.ofTag? = some .bool) := by
  unfold bool?
  simp only
  split
  · rename_i hWord
    simp only [Bool.or_eq_true, Bool.and_eq_true,
      beq_iff_eq] at hWord
    simp [hWord]
  · rename_i hWord
    simp only [Bool.or_eq_true, Bool.and_eq_true,
      beq_iff_eq] at hWord
    simp [hWord]

/- A Boolean value that is told and read is the same. -/
theorem eq_of_bool?
    (hValue : source.value? = some value)
    {b : Bool}
    (hTold : source.bool? = some b)
    (hRead : Shape.read .bool value = .ok meant) :
    .bool b = meant := by
  rcases read_bool_eq_ok hRead with ⟨read, rfl, rfl⟩
  cases source with
  | scalar tag text style =>
      have hOwn := (bool?_scalar_eq_some.mp hTold).1
      rw [(bool?_of_value?_scalar hValue).1] at hOwn
      cases hOwn
      rfl
  | sequence tag items => cases hTold
  | mapping tag entries => cases hTold

/- A tag that demands a kind is none of the text's own. -/
theorem local?_of_coreTag
    {tag : Option TagText}
    {core : CoreTag}
    (hCore : tag.bind CoreTag.ofTag? = some core) :
    TagText.local? tag = none := by
  unfold TagText.local?
  split
  · rename_i rest
    have hNot
        (name : String)
        (hName : name.toList.head? = some 't') :
        '!' :: rest ≠ name.toList := by
      intro hEq
      rw [← hEq] at hName
      cases hName
    unfold CoreTag.ofTag? at hCore
    simp only [Option.bind_some, Bool.not_true,
      Bool.false_eq_true, if_false] at hCore
    rw [if_neg (hNot _ rfl), if_neg (hNot _ rfl),
      if_neg (hNot _ rfl), if_neg (hNot _ rfl)] at hCore
    cases hCore
  · rfl

/- The word of a Boolean value is one under its tag. -/
theorem value?_of_boolTag
    {tag : Option TagText}
    {text : List Char}
    {b : Bool}
    (hTag : tag.bind CoreTag.ofTag? = some .bool)
    (hWord : Yaml.bool? text = some b)
    (style : ScalarStyle) :
    (scalar tag text style).value? = some (.bool b) := by
  rw [value?_scalar, Scalar.ofWritten,
    local?_of_coreTag hTag, Option.isSome_none,
    if_neg Bool.false_ne_true]
  rcases Option.bind_eq_some_iff.mp hTag with
    ⟨tag, rfl, hCore⟩
  rw [Scalar.resolve, hCore]
  simp only [CoreTag.scalar?, hWord]
  rfl

/-
  Common notation of a Boolean value is told exactly if it
  is read.
-/
theorem exists_bool?_iff
    (hValue : source.value? = some value)
    (hCommon : source.IsCommonBool) :
    (∃ b, source.bool? = some b) ↔
      ∃ meant, Shape.read .bool value = .ok meant := by
  constructor
  · rintro ⟨b, hTold⟩
    have hBool : source.value? = some (.bool b) := by
      cases source with
      | scalar tag text style =>
          rcases bool?_scalar_eq_some.mp hTold with
            ⟨hWord, hPlain | ⟨_, hTag⟩⟩
          · exact hCommon.1 hPlain b hWord
          · exact value?_of_boolTag hTag hWord style
      | sequence tag items => cases hTold
      | mapping tag entries => cases hTold
    rw [hValue, Option.some.injEq] at hBool
    subst hBool
    exact ⟨.bool b, rfl⟩
  · rintro ⟨meant, hRead⟩
    rcases read_bool_eq_ok hRead with ⟨b, rfl, rfl⟩
    cases source with
    | scalar tag text style =>
        rcases bool?_of_value?_scalar hValue with
          ⟨hWord, hKind⟩
        refine ⟨b, bool?_scalar_eq_some.mpr ⟨hWord, ?_⟩⟩
        by_cases hPlain : style = .plain
        · exact .inl hPlain
        by_cases hLiteral : style = .literal
        · exact
            .inr ⟨hLiteral, hKind.resolve_left hPlain⟩
        · exact
            absurd hValue (hCommon.2 hPlain hLiteral b)
    | sequence tag items =>
        rcases exists_of_value?_sequence hValue with ⟨_, hEq⟩
        cases hEq
    | mapping tag entries =>
        rcases exists_of_value?_mapping hValue with
          ⟨_, hEq, _⟩
        cases hEq

end Source

end Yaml

end Transclusion

------------------------------------------------------------
-- Choices
------------------------------------------------------------

namespace Transclusion

namespace Yaml

namespace Source

variable {source : Source}
variable {value meant : Value}
variable {names : List String}

/- A name is read as a choice if it is one of the names. -/
theorem readName_eq_ok_iff
    {name : String} :
    Shape.readName names name = .ok meant ↔
      name ∈ names ∧ meant = .string name := by
  unfold Shape.readName
  split
  · rename_i hName
    rw [List.contains_iff_mem] at hName
    simp [hName, eq_comm]
  · rename_i hName
    rw [List.contains_iff_mem] at hName
    simp [hName]

/- What is read as a choice: a name, or the name of nothing. -/
theorem read_choice_eq_ok
    (hRead :
      Shape.read (.choice names) value = .ok meant) :
    ∃ name ∈ names,
      meant = .string name ∧
        (value = .string name ∨
          value = .object [(name, .null)]) := by
  rw [Shape.read] at hRead
  unfold Shape.readChoice at hRead
  split at hRead
  · rename_i name
    rcases readName_eq_ok_iff.mp hRead with ⟨hName, rfl⟩
    exact ⟨name, hName, rfl, .inl rfl⟩
  · rename_i name content
    cases hName : Shape.readName names name with
    | error complaint =>
        rw [hName] at hRead
        cases hRead
    | ok chosen =>
        rw [hName] at hRead
        cases content
        case null =>
          cases hRead
          rcases readName_eq_ok_iff.mp hName with
            ⟨hMem, rfl⟩
          exact ⟨name, hMem, rfl, .inr rfl⟩
        all_goals cases hRead
  · cases hRead
  · cases hRead

variable {tag : Option TagText}
variable {text : List Char}
variable {style : ScalarStyle}
variable {name : String}

/- A choice that is told is its own text, or its tag. -/
theorem choice?_scalar_eq_some :
    (scalar tag text style).choice? names = some name ↔
      name ∈ names ∧
        (TagText.local? tag = none ∧
            name = String.ofList text ∨
          TagText.local? tag = some name ∧
            style = .plain ∧
              (text = [] ∨ isNullWord text = true)) := by
  unfold choice?
  simp only
  cases TagText.local? tag with
  | none =>
      simp only [List.contains_iff_mem]
      split
      · rename_i hName
        simp only [Option.some.injEq, reduceCtorEq,
          false_and, or_false, true_and]
        constructor
        · rintro rfl
          exact ⟨hName, rfl⟩
        · exact fun hTold => hTold.2.symm
      · rename_i hName
        simp only [reduceCtorEq, false_and, or_false,
          true_and, false_iff]
        rintro ⟨hTold, rfl⟩
        exact hName hTold
  | some own =>
      simp only [Bool.and_eq_true, List.contains_iff_mem,
        decide_eq_true_eq, Bool.or_eq_true]
      split
      · rename_i hTold
        simp only [Option.some.injEq, reduceCtorEq,
          false_and, false_or]
        constructor
        · rintro rfl
          exact ⟨hTold.1, rfl, hTold.2⟩
        · exact fun hName => hName.2.1
      · rename_i hTold
        simp only [reduceCtorEq, Option.some.injEq,
          false_and, false_or, false_iff]
        rintro ⟨hName, rfl, hNull⟩
        exact hTold ⟨hName, hNull⟩

/- A tag of its own leaves a scalar nothing. -/
theorem value?_of_local
    (hTag : TagText.local? tag = some name)
    (hNull : text = [] ∨ isNullWord text = true) :
    (scalar tag text .plain).value? = some .null := by
  rw [value?_scalar, Scalar.ofWritten, hTag,
    Option.isSome_some, if_pos rfl]
  simp only [Scalar.resolve, Scalar.untagged, if_true,
    Scalar.ofPlain, hNull]
  rfl

/- A choice that is told and read is the same. -/
theorem eq_of_choice?
    (hValue : source.value? = some value)
    (hTold : source.choice? names = some name)
    (hRead :
      Shape.read (.choice names) value = .ok meant) :
    .string name = meant := by
  rcases read_choice_eq_ok hRead with
    ⟨read, _, rfl, hChoice⟩
  cases source with
  | scalar tag text style =>
      have hKind := kind_of_value?_scalar hValue
      rcases hChoice with rfl | rfl
      · rcases choice?_scalar_eq_some.mp hTold with
          ⟨_, ⟨_, rfl⟩ | ⟨hTag, rfl, hNull⟩⟩
        · rw [eq_of_value?_scalar_string hValue]
        · rw [value?_of_local hTag hNull] at hValue
          cases hValue
      · cases hKind
  | sequence tag items => cases hTold
  | mapping tag entries => cases hTold

/-
  Common notation of a choice is told exactly if it is read,
  for names that stand for themselves.
-/
theorem exists_choice?_iff
    (hNames :
      ∀ name ∈ names, readsAsText name.toList = true)
    (hValue : source.value? = some value)
    (hCommon : source.IsCommonChoice names) :
    (∃ name, source.choice? names = some name) ↔
      ∃ meant,
        Shape.read (.choice names) value = .ok meant := by
  constructor
  · rintro ⟨name, hTold⟩
    cases source with
    | scalar tag text style =>
        rcases choice?_scalar_eq_some.mp hTold with
          ⟨hName, ⟨_, rfl⟩ | ⟨hTag, hNull⟩⟩
        · have hReads := hNames _ hName
          rw [String.toList_ofList] at hReads
          rw [eq_string_of_value?_scalar hReads hValue]
          exact ⟨_, readName_eq_ok_iff.mpr ⟨hName, rfl⟩⟩
        · exact absurd ⟨hName, hNull⟩ (hCommon name hTag).1
    | sequence tag items => cases hTold
    | mapping tag entries => cases hTold
  · rintro ⟨meant, hRead⟩
    rcases read_choice_eq_ok hRead with
      ⟨name, hName, rfl, hChoice⟩
    cases source with
    | scalar tag text style =>
        have hKind := kind_of_value?_scalar hValue
        rcases hChoice with rfl | rfl
        · have hText := eq_of_value?_scalar_string hValue
          refine
            ⟨name, choice?_scalar_eq_some.mpr
              ⟨hName, .inl ⟨?_, hText⟩⟩⟩
          rw [Option.eq_none_iff_forall_ne_some]
          intro own hTag
          rw [hText] at hName
          exact (hCommon own hTag).2 hName
        · cases hKind
    | sequence tag items =>
        rcases exists_of_value?_sequence hValue with
          ⟨_, rfl⟩
        rcases hChoice with hEq | hEq <;> cases hEq
    | mapping tag entries =>
        rcases exists_of_value?_mapping hValue with
          ⟨_, rfl, _⟩
        rcases hChoice with hEq | hEq
        · cases hEq
        · rw [hEq] at hValue
          exact absurd hValue (hCommon name hName)

end Source

end Yaml

end Transclusion

------------------------------------------------------------
-- Settings
------------------------------------------------------------

namespace Transclusion

/-
  A setting is a field of a record: what its notation tells,
  how its value is read, and which notation is common to
  both.
-/
structure Setting where
  name : String
  tell : Yaml.Source → Option Value
  read : Shape.Reader
  default : Value
  isCommon : Yaml.Source → Prop

namespace Setting

/- What the notation of fields tells. -/
def tellers
    (fields : List Setting) : List Yaml.Source.FieldTeller :=
  fields.map fun field => (field.name, field.tell)

/- How the values of fields are read. -/
def readers
    (fields : List Setting) : List Shape.FieldReader :=
  fields.map fun field =>
    (field.name, field.read, some field.default)

/- Which notation of fields is common. -/
def commons
    (fields : List Setting) :
    List (String × (Yaml.Source → Prop)) :=
  fields.map fun field => (field.name, field.isCommon)

/-
  Whether what is told and what is read of a field is the
  same, and for common notation both are or neither is.
-/
structure Agrees
    (same : Value → Value → Prop)
    (field : Setting) : Prop where
  name : Yaml.IsFieldName field.name
  both :
    ∀ source value told meant,
      source.value? = some value →
        field.tell source = some told →
          field.read value = .ok meant → same told meant
  either :
    ∀ source value,
      source.value? = some value →
        field.isCommon source →
          ((∃ told, field.tell source = some told) ↔
            ∃ meant, field.read value = .ok meant)

variable {same : Value → Value → Prop}
variable {fields : List Setting}
variable {key : Yaml.Source}
variable {label name : String}

/- A field of a name is known to both, or none is. -/
theorem lookup_cases
    (fields : List Setting)
    (name : String) :
    ((∀ field ∈ fields, field.name ≠ name) ∧
        (tellers fields).lookup name = none ∧
          (readers fields).lookup name = none) ∨
      ∃ field ∈ fields,
        field.name = name ∧
          (tellers fields).lookup name = some field.tell ∧
            (readers fields).lookup name =
              some (field.read, some field.default) := by
  induction fields with
  | nil => exact .inl ⟨List.forall_mem_nil _, rfl, rfl⟩
  | cons field rest ih =>
      unfold tellers readers at ih ⊢
      rw [List.map_cons, List.map_cons, List.lookup_cons,
        List.lookup_cons]
      cases hName : name == field.name with
      | true =>
          exact
            .inr
              ⟨field, List.mem_cons_self,
                (eq_of_beq hName).symm, rfl, rfl⟩
      | false =>
          have hOther : field.name ≠ name := by
            rintro rfl
            rw [beq_self_eq_true] at hName
            cases hName
          rcases ih with
            ⟨hNone, hTellers, hReaders⟩ |
              ⟨found, hFound, hSame⟩
          · exact
              .inl
                ⟨List.forall_mem_cons.mpr ⟨hOther, hNone⟩,
                  hTellers, hReaders⟩
          · exact
              .inr
                ⟨found, List.mem_cons_of_mem _ hFound, hSame⟩

/-
  A key is the name of a field both as it is written and as
  a text, or in neither way.
-/
theorem lookup_key_cases
    (hNames :
      ∀ field ∈ fields, Yaml.IsFieldName field.name)
    (hKey : key.keyText? = some label)
    (hName : key.string? = some name) :
    ((∀ field ∈ fields, field.name ≠ name) ∧
        (tellers fields).lookup name = none ∧
          (readers fields).lookup label = none) ∨
      label = name ∧
        ∃ field ∈ fields,
          field.name = name ∧
            (tellers fields).lookup name =
                some field.tell ∧
              (readers fields).lookup label =
                some (field.read, some field.default) := by
  have hAlike
      (field : Setting)
      (hField : field ∈ fields) :
      label = field.name ↔ name = field.name := by
    rw [Yaml.Source.keyText?_eq_iff hKey
      (hNames field hField), hName, Option.some.injEq]
  rcases lookup_cases fields name with
    ⟨hNone, hTellers, _⟩ |
      ⟨field, hField, rfl, hTeller, hReader⟩
  · rcases lookup_cases fields label with
      ⟨_, _, hReaders⟩ | ⟨field, hField, rfl, _⟩
    · exact .inl ⟨hNone, hTellers, hReaders⟩
    · exact
        absurd ((hAlike field hField).mp rfl).symm
          (hNone field hField)
  · obtain rfl := (hAlike field hField).mpr rfl
    exact
      .inr ⟨rfl, field, hField, rfl, hTeller, hReader⟩

/- Written entries, and the fields that they become. -/
def AreFields
    (entries : List (Yaml.Source × Yaml.Source))
    (values : Fields) : Prop :=
  List.Forall₂
    (fun entry field =>
      entry.1.keyText? = some field.1 ∧
        entry.2.value? = some field.2)
    entries values

variable {entries : List (Yaml.Source × Yaml.Source)}
variable {values found told known : Fields}

/- Fields that are told and read are the same. -/
theorem exists_forall₂_of_fields?
    (hAgrees : ∀ field ∈ fields, field.Agrees same)
    (hValues : AreFields entries values)
    (hTold :
      Yaml.Source.fields? (tellers fields) found entries =
        some told)
    (hKnown :
      Shape.readKnown (readers fields) values = .ok known) :
    ∃ own,
      told = found ++ own ∧
        List.Forall₂
          (fun a b => a.1 = b.1 ∧ same a.2 b.2)
          own known := by
  have hNames (field : Setting) (hField : field ∈ fields) :=
    (hAgrees field hField).name
  induction hValues generalizing found known with
  | nil =>
      cases hTold
      cases hKnown
      exact ⟨[], (List.append_nil _).symm, .nil⟩
  | @cons entry value rest more hEntry _ ih =>
      rcases entry with ⟨key, source⟩
      rcases value with ⟨label, value⟩
      rw [Yaml.Source.fields?] at hTold
      rcases Option.bind_eq_some_iff.mp hTold with
        ⟨name, hName, hTold⟩
      rw [Shape.readKnown] at hKnown
      rcases lookup_key_cases hNames hEntry.1 hName with
        ⟨_, hTeller, hReader⟩ |
          ⟨rfl, field, hField, _, hTeller, hReader⟩
      · rw [hTeller] at hTold
        rw [hReader] at hKnown
        exact ih hTold hKnown
      · rw [hTeller] at hTold
        rw [hReader] at hKnown
        simp only at hTold hKnown
        split at hTold
        · cases hTold
        rcases Option.bind_eq_some_iff.mp hTold with
          ⟨first, hFirst, hTold⟩
        cases hRead : field.read value with
        | error complaint =>
            rw [hRead] at hKnown
            cases hKnown
        | ok meant =>
            cases hMore :
                Shape.readKnown (readers fields) more with
            | error complaint =>
                rw [hRead, hMore] at hKnown
                cases hKnown
            | ok others =>
                rw [hRead, hMore] at hKnown
                cases hKnown
                rcases ih hTold hMore with
                  ⟨own, rfl, hOwn⟩
                refine
                  ⟨(label, first) :: own,
                    List.append_assoc _ _ _,
                    .cons ⟨rfl, ?_⟩ hOwn⟩
                exact
                  (hAgrees field hField).both source value
                    first meant hEntry.2 hFirst hRead

/- The first field is read, and then those behind it. -/
theorem exists_readKnown_cons_iff
    {field : Setting}
    (hReader :
      (readers fields).lookup label =
        some (field.read, some field.default))
    {value : Value} :
    (∃ known,
        Shape.readKnown (readers fields)
            ((label, value) :: values) =
          .ok known) ↔
      (∃ meant, field.read value = .ok meant) ∧
        ∃ known,
          Shape.readKnown (readers fields) values =
            .ok known := by
  rw [Shape.readKnown, hReader]
  cases hRead : field.read value with
  | error complaint => simp [hRead, bind, Except.bind]
  | ok meant =>
      cases Shape.readKnown (readers fields) values <;>
        simp [hRead, bind, Except.bind, pure, Except.pure]

/- The first field is told, and then those behind it. -/
theorem exists_fields?_cons_iff
    {field : Setting}
    (hTeller :
      (tellers fields).lookup name = some field.tell)
    (hName : key.string? = some name)
    (hNew : name ∉ Fields.keys found)
    {source : Yaml.Source} :
    (∃ told,
        Yaml.Source.fields? (tellers fields) found
            ((key, source) :: entries) =
          some told) ↔
      ∃ first,
        field.tell source = some first ∧
          ∃ told,
            Yaml.Source.fields? (tellers fields)
                (found ++ [(name, first)]) entries =
              some told := by
  have hFree : Fields.hasKey found name = false := by
    rwa [Bool.eq_false_iff, ne_eq,
      Fields.hasKey_iff_mem_keys]
  rw [Yaml.Source.fields?, hName]
  simp only [bind, Option.bind_some, hTeller, hFree,
    Bool.false_eq_true, if_false]
  cases field.tell source <;> simp

/-
  Fields in common notation are told exactly if they are
  read.
-/
theorem exists_fields?_iff
    (hAgrees : ∀ field ∈ fields, field.Agrees same)
    (hValues : AreFields entries values)
    (hKeys : (Fields.keys values).Nodup)
    (hNew :
      ∀ key ∈ Fields.keys values, key ∉ Fields.keys found)
    (hCommon :
      Yaml.Source.HasCommonEntries (commons fields)
        entries) :
    (∃ told,
        Yaml.Source.fields? (tellers fields) found entries =
          some told) ↔
      ∃ known,
        Shape.readKnown (readers fields) values =
          .ok known := by
  have hNames (field : Setting) (hField : field ∈ fields) :=
    (hAgrees field hField).name
  induction hValues generalizing found with
  | nil => exact iff_of_true ⟨found, rfl⟩ ⟨[], rfl⟩
  | @cons entry value rest more hEntry _ ih =>
      rcases entry with ⟨key, source⟩
      rcases value with ⟨label, value⟩
      rcases List.forall_mem_cons.mp hCommon with
        ⟨⟨name, hName, hFirst⟩, hRest⟩
      rw [Fields.keys, List.map_cons, List.nodup_cons]
        at hKeys
      rw [Fields.keys, List.map_cons,
        List.forall_mem_cons] at hNew
      rcases lookup_key_cases hNames hEntry.1 hName with
        ⟨_, hTeller, hReader⟩ |
          ⟨rfl, field, hField, hSame, hTeller, hReader⟩
      · rw [Yaml.Source.fields?, hName, Shape.readKnown,
          hReader]
        simp only [bind, Option.bind_some, hTeller]
        exact ih hKeys.2 hNew.2 hRest
      · rw [exists_fields?_cons_iff hTeller hName hNew.1,
          exists_readKnown_cons_iff hReader]
        have hHere :=
          (hAgrees field hField).either source value
            hEntry.2
            (hFirst (field.name, field.isCommon)
              (List.mem_map_of_mem hField) hSame)
        have hNewBehind (first : Value) :
            ∀ other ∈ Fields.keys more,
              other ∉
                Fields.keys (found ++ [(label, first)]) := by
          intro other hOther
          rw [Fields.keys_append, List.mem_append, not_or]
          refine ⟨hNew.2 other hOther, ?_⟩
          rw [Fields.keys, List.map_singleton,
            List.mem_singleton]
          rintro rfl
          exact hKeys.1 hOther
        have hBehind (first : Value) :=
          ih hKeys.2 (hNewBehind first) hRest
        constructor
        · rintro ⟨first, hTold, hMore⟩
          exact
            ⟨hHere.mp ⟨first, hTold⟩,
              (hBehind first).mp hMore⟩
        · rintro ⟨hMeant, hMore⟩
          rcases hHere.mpr hMeant with ⟨first, hTold⟩
          exact ⟨first, hTold, (hBehind first).mpr hMore⟩

end Setting

end Transclusion

------------------------------------------------------------
-- Complete Records
------------------------------------------------------------

namespace Transclusion

namespace Shape

/- What is read as a record is an object. -/
theorem exists_of_readRecord
    {name : String}
    {readers : List FieldReader}
    {value meant : Value}
    (hRead : readRecord name readers value = .ok meant) :
    ∃ fields, meant = .object fields := by
  unfold readRecord at hRead
  split at hRead
  · rename_i fields
    cases hKnown : readKnown readers fields with
    | error complaint =>
        rw [hKnown] at hRead
        cases hRead
    | ok found =>
        cases hAll : complete found readers with
        | error complaint =>
            simp only [hKnown, hAll, bind, Except.bind]
              at hRead
            cases hRead
        | ok all =>
            simp only [hKnown, hAll, bind, Except.bind]
              at hRead
            cases hRead
            exact ⟨all, rfl⟩
  · rename_i items
    simp only at hRead
    cases hAll :
        readInOrder
          (lengthComplaint name readers items.length)
          readers items with
    | error complaint =>
        simp only [hAll, bind, Except.bind] at hRead
        cases hRead
    | ok all =>
        simp only [hAll, bind, Except.bind] at hRead
        split at hRead
        · cases hRead
        · cases hRead
          exact ⟨all, rfl⟩
  · cases hRead
end Shape

namespace Setting

variable {fields : List Setting}

/- All fields, with defaults for those that are missing. -/
def completed
    (fields : List Setting)
    (known : Fields) : List (String × Value) :=
  fields.map fun field =>
    (field.name,
      (Fields.get? known field.name).getD field.default)

/- Fields with defaults can be completed. -/
theorem complete_readers
    (fields : List Setting)
    (known : Fields) :
    Shape.complete known (readers fields) =
      .ok (completed fields known) := by
  unfold readers completed
  induction fields with
  | nil => rfl
  | cons field rest ih =>
      simp only [List.map_cons, Shape.complete, ih]
      cases Fields.get? known field.name <;> rfl

/- A record is read from its known fields. -/
theorem readRecord_object_eq_ok_iff
    {name : String}
    {values : Fields}
    {meant : Value} :
    Shape.readRecord name (readers fields)
          (.object values) =
        .ok meant ↔
      ∃ known,
        Shape.readKnown (readers fields) values =
            .ok known ∧
          meant = .object (completed fields known) := by
  unfold Shape.readRecord
  simp only [complete_readers]
  cases Shape.readKnown (readers fields) values with
  | error complaint => simp [bind, Except.bind]
  | ok known =>
      simp [bind, Except.bind, pure, Except.pure, eq_comm]

/-
  Whether values are given for the first fields in order,
  and for nothing else.
-/
def AreInOrder
    (fields : List Setting)
    (values : List Value) : Prop :=
  values.length ≤ fields.length ∧
    ∀ pair ∈ fields.zip values,
      ∃ meant, pair.1.read pair.2 = .ok meant

/- Values are read in order as far as they go. -/
theorem exists_readInOrder_iff
    (shortage : Complaint)
    (fields : List Setting)
    (values : List Value) :
    (∃ meant,
        Shape.readInOrder shortage (readers fields) values =
          .ok meant) ↔
      ∀ pair ∈ fields.zip values,
        ∃ meant, pair.1.read pair.2 = .ok meant := by
  unfold readers
  induction fields generalizing values with
  | nil => exact iff_of_true ⟨[], rfl⟩ (by simp)
  | cons field rest ih =>
      cases values with
      | nil =>
          rcases (ih []).mpr (by simp) with ⟨more, hMore⟩
          refine
            iff_of_true
              ⟨(field.name, field.default) :: more, ?_⟩
              (by simp)
          rw [List.map_cons, Shape.readInOrder, hMore]
          rfl
      | cons value values =>
          rw [List.zip_cons_cons, List.forall_mem_cons,
            ← ih, List.map_cons, Shape.readInOrder]
          cases field.read value with
          | error complaint => simp [bind, Except.bind]
          | ok meant =>
              cases Shape.readInOrder shortage
                  (rest.map fun field =>
                    (field.name, field.read,
                      some field.default)) values <;>
                simp [bind, Except.bind, pure, Except.pure]

/- A sequence is a record if it has its values in order. -/
theorem exists_readRecord_array_iff
    {name : String}
    {values : List Value} :
    (∃ meant,
        Shape.readRecord name (readers fields)
            (.array values) =
          .ok meant) ↔
      AreInOrder fields values := by
  have hLength : (readers fields).length = fields.length :=
    List.length_map _
  unfold AreInOrder Shape.readRecord
  rw [← exists_readInOrder_iff
    (Shape.lengthComplaint name (readers fields)
      values.length)]
  simp only [hLength]
  cases Shape.readInOrder _ (readers fields) values with
  | error complaint => simp [bind, Except.bind]
  | ok all =>
      simp only [bind, Except.bind]
      split
      · rename_i hLonger
        simp [throw, throwThe, MonadExceptOf.throw, hLonger]
      · rename_i hFits
        simp [pure, Except.pure, Nat.not_lt.mp hFits]

/- What is no collection is no record. -/
theorem readRecord_ne_ok_of_plain
    {name : String}
    {value : Value}
    (hKind : value.kind = .plain)
    (meant : Value) :
    Shape.readRecord name (readers fields) value ≠
      .ok meant := by
  intro hRead
  cases value
  case array items => cases hKind
  case object fields => cases hKind
  all_goals cases hRead

end Setting

end Transclusion

------------------------------------------------------------
-- Kinds of Settings
------------------------------------------------------------

namespace Transclusion

namespace Setting

/- A setting that is a string. -/
def ofString
    (name default : String) : Setting where
  name := name
  tell source := source.string?.map .string
  read := Shape.read .string
  default := .string default
  isCommon := Yaml.Source.IsCommonString

/- A setting that is a Boolean value. -/
def ofBool
    (name : String)
    (default : Bool) : Setting where
  name := name
  tell source := source.bool?.map .bool
  read := Shape.read .bool
  default := .bool default
  isCommon := Yaml.Source.IsCommonBool

/- A setting that is one of some names. -/
def ofChoice
    (name : String)
    (names : List String)
    (default : String) : Setting where
  name := name
  tell source := (source.choice? names).map .string
  read := Shape.read (.choice names)
  default := .string default
  isCommon := Yaml.Source.IsCommonChoice names

/-
  Common notation of a record: it is not left out where its
  name stands, it is no sequence that has the values of its
  fields in order, and its entries are common.
-/
def IsCommonRecord
    (fields : List Setting) : Yaml.Source → Prop
  | .scalar _ text style => ¬ (text = [] ∧ style = .plain)
  | .sequence tag items =>
      ∀ values,
        (Yaml.Source.sequence tag items).value? =
            some (.array values) →
          ¬ AreInOrder fields values
  | .mapping _ entries =>
      Yaml.Source.HasCommonEntries (commons fields) entries

/- A setting that is a record of settings. -/
def ofRecord
    (name record : String)
    (fields : List Setting)
    (default : Value) : Setting where
  name := name
  tell source :=
    (source.record? (tellers fields)).map .object
  read := Shape.readRecord record (readers fields)
  default := default
  isCommon := IsCommonRecord fields

/- What is put in another form is something if it was. -/
theorem exists_map_eq_some_iff
    {α β : Type}
    {f : α → β}
    {found : Option α} :
    (∃ b, found.map f = some b) ↔ ∃ a, found = some a := by
  cases found <;> simp

variable {same : Value → Value → Prop}
variable {name : String}

/- Strings are told as they are read. -/
theorem agrees_ofString
    (hSame : ∀ value, same value value)
    (hName : Yaml.IsFieldName name)
    (default : String) :
    (ofString name default).Agrees same where
  name := hName
  both source value told meant hValue hTold hRead := by
    rcases Option.map_eq_some_iff.mp hTold with
      ⟨s, hString, rfl⟩
    rw [Yaml.Source.eq_of_string? hValue hString hRead]
    exact hSame meant
  either source value hValue hCommon := by
    exact
      exists_map_eq_some_iff.trans
        (Yaml.Source.exists_string?_iff hValue hCommon)

/- Boolean values are told as they are read. -/
theorem agrees_ofBool
    (hSame : ∀ value, same value value)
    (hName : Yaml.IsFieldName name)
    (default : Bool) :
    (ofBool name default).Agrees same where
  name := hName
  both source value told meant hValue hTold hRead := by
    rcases Option.map_eq_some_iff.mp hTold with
      ⟨b, hBool, rfl⟩
    rw [Yaml.Source.eq_of_bool? hValue hBool hRead]
    exact hSame meant
  either source value hValue hCommon := by
    exact
      exists_map_eq_some_iff.trans
        (Yaml.Source.exists_bool?_iff hValue hCommon)

/- Choices are told as they are read. -/
theorem agrees_ofChoice
    (hSame : ∀ value, same value value)
    (hName : Yaml.IsFieldName name)
    {names : List String}
    (hNames :
      ∀ name ∈ names,
        Yaml.readsAsText name.toList = true)
    (default : String) :
    (ofChoice name names default).Agrees same where
  name := hName
  both source value told meant hValue hTold hRead := by
    rcases Option.map_eq_some_iff.mp hTold with
      ⟨choice, hChoice, rfl⟩
    rw [Yaml.Source.eq_of_choice? hValue hChoice hRead]
    exact hSame meant
  either source value hValue hCommon := by
    exact
      exists_map_eq_some_iff.trans
        (Yaml.Source.exists_choice?_iff hNames hValue
          hCommon)

/- A record that is told and read has the same settings. -/
theorem exists_of_record?
    {inner : Value → Value → Prop}
    {fields : List Setting}
    (hAgrees : ∀ field ∈ fields, field.Agrees inner)
    {source : Yaml.Source}
    {value meant : Value}
    {told : Fields}
    {record : String}
    (hValue : source.value? = some value)
    (hTold : source.record? (tellers fields) = some told)
    (hRead :
      Shape.readRecord record (readers fields) value =
        .ok meant) :
    ∃ known,
      List.Forall₂
          (fun a b => a.1 = b.1 ∧ inner a.2 b.2)
          told known ∧
        meant = .object (completed fields known) := by
  cases source with
  | scalar tag text style =>
      have hKind := Yaml.Source.kind_of_value?_scalar hValue
      exact
        absurd hRead (readRecord_ne_ok_of_plain hKind meant)
  | sequence tag items => cases hTold
  | mapping tag entries =>
      rcases Yaml.Source.exists_of_value?_mapping hValue with
        ⟨values, rfl, hValues, _⟩
      rcases readRecord_object_eq_ok_iff.mp hRead with
        ⟨known, hKnown, rfl⟩
      rcases exists_forall₂_of_fields? hAgrees hValues hTold
          hKnown with
        ⟨own, rfl, hOwn⟩
      exact ⟨known, hOwn, rfl⟩

/- Common notation of a record is told exactly if it is read. -/
theorem exists_record?_iff
    {inner : Value → Value → Prop}
    {fields : List Setting}
    (hAgrees : ∀ field ∈ fields, field.Agrees inner)
    {source : Yaml.Source}
    {value : Value}
    {record : String}
    (hValue : source.value? = some value)
    (hCommon : IsCommonRecord fields source) :
    (∃ told, source.record? (tellers fields) = some told) ↔
      ∃ meant,
        Shape.readRecord record (readers fields) value =
          .ok meant := by
  cases source with
  | scalar tag text style =>
      have hKind := Yaml.Source.kind_of_value?_scalar hValue
      refine iff_of_false ?_ ?_
      · rintro ⟨told, hTold⟩
        unfold Yaml.Source.record? at hTold
        simp only at hTold
        split at hTold
        · rename_i hEmpty
          exact hCommon (by simpa using hEmpty)
        · cases hTold
      · rintro ⟨meant, hRead⟩
        exact readRecord_ne_ok_of_plain hKind meant hRead
  | sequence tag items =>
      refine iff_of_false ?_ ?_
      · rintro ⟨told, hTold⟩
        cases hTold
      · rcases Yaml.Source.exists_of_value?_sequence hValue
          with ⟨values, rfl⟩
        rw [exists_readRecord_array_iff]
        exact hCommon values hValue
  | mapping tag entries =>
      rcases Yaml.Source.exists_of_value?_mapping hValue with
        ⟨values, rfl, hValues, hKeys⟩
      simp only [readRecord_object_eq_ok_iff]
      have hFields :
          (∃ told,
              Yaml.Source.fields? (tellers fields) []
                  entries =
                some told) ↔
            ∃ known,
              Shape.readKnown (readers fields) values =
                .ok known :=
        exists_fields?_iff hAgrees hValues hKeys
          (by simp [Fields.keys]) hCommon
      refine hFields.trans ?_
      constructor
      · rintro ⟨known, hKnown⟩
        exact ⟨_, known, hKnown, rfl⟩
      · rintro ⟨_, known, hKnown, _⟩
        exact ⟨known, hKnown⟩

/- Records are told as they are read, up to their defaults. -/
theorem agrees_ofRecord
    {inner : Value → Value → Prop}
    {fields : List Setting}
    (hAgrees : ∀ field ∈ fields, field.Agrees inner)
    (hSame :
      ∀ told known,
        List.Forall₂
            (fun a b => a.1 = b.1 ∧ inner a.2 b.2)
            told known →
          same (.object told)
            (.object (completed fields known)))
    (hName : Yaml.IsFieldName name)
    (record : String)
    (default : Value) :
    (ofRecord name record fields default).Agrees same where
  name := hName
  both source value told meant hValue hTold hRead := by
    rcases Option.map_eq_some_iff.mp hTold with
      ⟨found, hFound, rfl⟩
    rcases exists_of_record? hAgrees hValue hFound
        hRead with
      ⟨known, hKnown, rfl⟩
    exact hSame found known hKnown
  either source value hValue hCommon := by
    exact
      exists_map_eq_some_iff.trans
        (exists_record?_iff hAgrees hValue hCommon)

end Setting

end Transclusion
