import Transclusion.Config.Stored
import Transclusion.Proofs.Config.Places
import Transclusion.Proofs.Resolve.Run
import Transclusion.Proofs.Yaml.Blank

/-
  The two ways to read a configuration.

  Key definitions include:
    * `Transclusion.Config.settings`
    * `Transclusion.Config.tell?`
    * `Transclusion.Config.IsCommon`

  Key theorems include:
    * `Transclusion.Config.eq_of_told_of_meant`
    * `Transclusion.Config.exists_told_iff`
    * `Transclusion.Config.readers_agree`

  One way goes through the value of the text, and the other
  one through its notation.  What both of them accept means
  the same, and the notation that only one of them accepts
  is what a tag, a style or a bare word makes of a setting.
-/

------------------------------------------------------------
-- Settings of Options
------------------------------------------------------------

namespace Transclusion

namespace MergeOptions

/- The settings of options. -/
def settings : List Setting :=
  [.ofChoice "key_policy" (KeyPolicy.all.map KeyPolicy.name)
      KeyPolicy.second.name,
    .ofChoice "array_policy"
      (ArrayPolicy.all.map ArrayPolicy.name)
      ArrayPolicy.appendSecond.name,
    .ofBool "recursive" true]

/- Defaults do not change what fields stand for. -/
theorem ofFields_completed
    (known : Fields) :
    ofFields (Setting.completed settings known) =
      ofFields known := by
  unfold ofFields Setting.completed settings
  simp only [List.map_cons, List.map_nil, Fields.get?_cons,
    Setting.ofBool, Setting.ofChoice]
  cases Fields.get? known "key_policy" <;>
    cases Fields.get? known "array_policy" <;>
      cases Fields.get? known "recursive" <;> rfl

/- What is told of options is what is read of them. -/
theorem agrees_of_mem
    {setting : Setting}
    (hSetting : setting ∈ settings) :
    setting.Agrees (· = ·) := by
  have hNames
      (names : List String)
      (hReads :
        names.all (fun name => Yaml.readsAsText name.toList) =
          true) :
      ∀ name ∈ names,
        Yaml.readsAsText name.toList = true :=
    List.all_eq_true.mp hReads
  unfold settings at hSetting
  rw [List.mem_cons, List.mem_cons, List.mem_singleton]
    at hSetting
  rcases hSetting with rfl | rfl | rfl
  · exact
      Setting.agrees_ofChoice (fun _ => rfl) (by decide)
        (hNames _ (by decide)) _
  · exact
      Setting.agrees_ofChoice (fun _ => rfl) (by decide)
        (hNames _ (by decide)) _
  · exact
      Setting.agrees_ofBool (fun _ => rfl) (by decide) _

end MergeOptions

end Transclusion

------------------------------------------------------------
-- Settings of Configurations
------------------------------------------------------------

namespace Transclusion

namespace Config

/- The settings of configurations. -/
def settings : List Setting :=
  let defaults : Config := {}
  [.ofString "includes_key" defaults.includesKey,
    .ofBool "lenient_root" defaults.lenientRoot,
    .ofRecord "merge" "MergeOptions" MergeOptions.settings
      defaults.merge.toValue]

/- Configurations are read setting by setting. -/
theorem read_shape :
    Shape.read shape =
      Shape.readRecord "ResolverConfig"
        (Setting.readers settings) := by
  rfl

/-
  Whether two values stand for one setting: they are the
  same, or they are the same options.
-/
inductive SameSetting : Value → Value → Prop where
  | refl
      (value : Value) :
      SameSetting value value
  | options
      {told known : Fields}
      (hSame :
        MergeOptions.ofFields told =
          MergeOptions.ofFields known) :
      SameSetting (.object told) (.object known)

/- What is told of a configuration is what is read of it. -/
theorem agrees_of_mem
    {setting : Setting}
    (hSetting : setting ∈ settings) :
    setting.Agrees SameSetting := by
  unfold settings at hSetting
  rw [List.mem_cons, List.mem_cons, List.mem_singleton]
    at hSetting
  rcases hSetting with rfl | rfl | rfl
  · exact
      Setting.agrees_ofString SameSetting.refl (by decide) _
  · exact
      Setting.agrees_ofBool SameSetting.refl (by decide) _
  · refine
      Setting.agrees_ofRecord
        (fun _ => MergeOptions.agrees_of_mem) ?_ (by decide)
        _ _
    intro told known hSame
    have hEq : told = known := by
      rw [← List.forall₂_eq_eq_eq]
      exact
        hSame.imp fun _ _ hField =>
          Prod.ext hField.1 hField.2
    rw [hEq]
    exact
      .options (MergeOptions.ofFields_completed known).symm

/- Settings that are the same are found under the same keys. -/
theorem rel_get?_of_forall₂
    {told known : Fields}
    (hSame :
      List.Forall₂
        (fun a b => a.1 = b.1 ∧ SameSetting a.2 b.2)
        told known)
    (key : String) :
    Option.Rel SameSetting (Fields.get? told key)
      (Fields.get? known key) := by
  induction hSame with
  | nil => exact .none
  | @cons first second _ _ hFirst _ ih =>
      rcases first with ⟨name, a⟩
      rcases second with ⟨_, b⟩
      rcases hFirst with ⟨rfl, hSetting⟩
      rw [Fields.get?_cons, Fields.get?_cons]
      split
      · exact .some hSetting
      · exact ih

/- Settings that are the same make one configuration. -/
theorem ofFields_eq_of_forall₂
    {told known : Fields}
    (hSame :
      List.Forall₂
        (fun a b => a.1 = b.1 ∧ SameSetting a.2 b.2)
        told known) :
    ofFields told = ofFields known := by
  have hKey := rel_get?_of_forall₂ hSame "includes_key"
  have hRoot := rel_get?_of_forall₂ hSame "lenient_root"
  have hMerge := rel_get?_of_forall₂ hSame "merge"
  unfold ofFields
  simp only [mk.injEq]
  refine ⟨?_, ?_, ?_⟩
  · generalize Fields.get? told "includes_key" = first at *
    generalize Fields.get? known "includes_key" = second at *
    cases hKey with
    | none => rfl
    | some hSetting => cases hSetting <;> rfl
  · generalize Fields.get? told "lenient_root" = first at *
    generalize Fields.get? known "lenient_root" = second at *
    cases hRoot with
    | none => rfl
    | some hSetting => cases hSetting <;> rfl
  · generalize Fields.get? told "merge" = first at *
    generalize Fields.get? known "merge" = second at *
    cases hMerge with
    | none => rfl
    | some hSetting =>
        cases hSetting with
        | refl => rfl
        | options hOptions => exact hOptions

/- Defaults do not change what fields stand for. -/
theorem ofFields_completed
    (known : Fields) :
    ofFields (Setting.completed settings known) =
      ofFields known := by
  unfold ofFields Setting.completed settings
  simp only [List.map_cons, List.map_nil, Fields.get?_cons,
    Setting.ofString, Setting.ofBool, Setting.ofRecord]
  cases Fields.get? known "includes_key" <;>
    cases Fields.get? known "lenient_root" <;>
      cases Fields.get? known "merge" <;> rfl

end Config

end Transclusion

------------------------------------------------------------
-- Configurations as They Are Written
------------------------------------------------------------

namespace Transclusion

namespace Config

variable {source : Yaml.Source}
variable {value : Value}
variable {config told meant : Config}

/- The configuration that notation tells. -/
def tell?
    (source : Yaml.Source) : Option Config :=
  (source.record? (Setting.tellers settings)).map ofFields

/- Whether a value means a configuration, as null does. -/
def IsMeant
    (value : Value)
    (config : Config) : Prop :=
  value = .null ∧ config = {} ∨ ofValue value = .ok config

/-
  Common notation of a configuration: it is nothing exactly
  if it is left out, it is no sequence of settings in order,
  and its entries are common.
-/
def IsCommon : Yaml.Source → Prop
  | .scalar tag text style =>
      (Yaml.Source.scalar tag text style).value? =
          some .null ↔
        text = [] ∧ style = .plain
  | source =>
      Setting.IsCommonRecord settings source

/- A configuration is meant if its record is read. -/
theorem ofValue_eq_ok_iff :
    ofValue value = .ok config ↔
      ∃ fields,
        Shape.readRecord "ResolverConfig"
            (Setting.readers settings) value =
          .ok (.object fields) ∧
        config = ofFields fields := by
  unfold ofValue
  rw [read_shape]
  cases hRead :
      Shape.readRecord "ResolverConfig"
        (Setting.readers settings) value with
  | error complaint => simp [bind, Except.bind]
  | ok meant =>
      rcases Shape.exists_of_readRecord hRead with
        ⟨fields, rfl⟩
      simp [bind, Except.bind, pure, Except.pure, eq_comm]

/- A configuration that is told and meant is the same. -/
theorem eq_of_told_of_meant
    (hValue : source.value? = some value)
    (hTold : tell? source = some told)
    (hMeant : IsMeant value meant) :
    told = meant := by
  rcases Option.map_eq_some_iff.mp hTold with
    ⟨fields, hFields, rfl⟩
  rcases hMeant with ⟨rfl, rfl⟩ | hMeant
  · cases source with
    | scalar tag text style =>
        unfold Yaml.Source.record? at hFields
        simp only at hFields
        split at hFields
        · cases hFields
          rfl
        · cases hFields
    | sequence tag items =>
        rcases Yaml.Source.exists_of_value?_sequence hValue
          with ⟨_, hEq⟩
        cases hEq
    | mapping tag entries =>
        rcases Yaml.Source.exists_of_value?_mapping hValue
          with ⟨_, hEq, _⟩
        cases hEq
  · rcases ofValue_eq_ok_iff.mp hMeant with
      ⟨read, hRead, rfl⟩
    rcases Setting.exists_of_record?
        (fun _ => agrees_of_mem) hValue hFields hRead with
      ⟨known, hKnown, hEq⟩
    cases hEq
    rw [ofFields_completed]
    exact ofFields_eq_of_forall₂ hKnown

/- Common notation is told exactly if it means something. -/
theorem exists_told_iff
    (hValue : source.value? = some value)
    (hCommon : IsCommon source) :
    (∃ told, tell? source = some told) ↔
      ∃ meant, IsMeant value meant := by
  have hMeant :
      (∃ meant, IsMeant value meant) ↔
        value = .null ∨
          ∃ meant,
            Shape.readRecord "ResolverConfig"
                (Setting.readers settings) value =
              .ok meant := by
    constructor
    · rintro ⟨meant, ⟨rfl, _⟩ | hOk⟩
      · exact .inl rfl
      · rcases ofValue_eq_ok_iff.mp hOk with
          ⟨fields, hRead, _⟩
        exact .inr ⟨_, hRead⟩
    · rintro (rfl | ⟨meant, hRead⟩)
      · exact ⟨{}, .inl ⟨rfl, rfl⟩⟩
      · rcases Shape.exists_of_readRecord hRead with
          ⟨fields, rfl⟩
        exact
          ⟨ofFields fields,
            .inr (ofValue_eq_ok_iff.mpr ⟨fields, hRead, rfl⟩)⟩
  have hRecord
      (hCommon : Setting.IsCommonRecord settings source) :
      (∃ told, tell? source = some told) ↔
        ∃ meant,
          Shape.readRecord "ResolverConfig"
              (Setting.readers settings) value =
            .ok meant :=
    Setting.exists_map_eq_some_iff.trans
      (Setting.exists_record?_iff
        (fun _ => agrees_of_mem) hValue hCommon)
  rw [hMeant]
  cases source with
  | scalar tag text style =>
      have hKind := Yaml.Source.kind_of_value?_scalar hValue
      have hNone :
          ¬ ∃ meant,
            Shape.readRecord "ResolverConfig"
                (Setting.readers settings) value =
              .ok meant := by
        rintro ⟨meant, hRead⟩
        exact
          Setting.readRecord_ne_ok_of_plain hKind meant hRead
      change _ = some Value.null ↔ _ at hCommon
      rw [hValue, Option.some.injEq] at hCommon
      rw [or_iff_left hNone, hCommon]
      unfold tell? Yaml.Source.record?
      simp only
      split
      · rename_i hEmpty
        simpa using hEmpty
      · rename_i hSome
        simpa using hSome
  | sequence tag items =>
      rcases Yaml.Source.exists_of_value?_sequence hValue
        with ⟨_, rfl⟩
      exact
        (hRecord hCommon).trans (or_iff_right (by simp)).symm
  | mapping tag entries =>
      rcases Yaml.Source.exists_of_value?_mapping hValue
        with ⟨_, rfl, _⟩
      exact
        (hRecord hCommon).trans (or_iff_right (by simp)).symm

end Config

end Transclusion

------------------------------------------------------------
-- Reading the Notation
------------------------------------------------------------

namespace Transclusion

namespace MergeOptions

/- The readers of options give what notation tells. -/
theorem fieldsTell
    {document : Yaml.Document}
    (hSize : document.items.length ≤ document.size) :
    Yaml.Read.FieldsTell document fieldReaders
      (Setting.tellers settings) :=
  .cons
    ⟨rfl, (Yaml.Read.tells_choice hSize _).map Value.string⟩
    (.cons
      ⟨rfl,
        (Yaml.Read.tells_choice hSize _).map Value.string⟩
      (.cons
        ⟨rfl, (Yaml.Read.tells_bool hSize).map Value.bool⟩
        .nil))

end MergeOptions

namespace Config

/- The readers of configurations give what notation tells. -/
theorem fieldsTell
    {document : Yaml.Document}
    (hSize : document.items.length ≤ document.size) :
    Yaml.Read.FieldsTell document fieldReaders
      (Setting.tellers settings) :=
  .cons
    ⟨rfl, (Yaml.Read.tells_string hSize _).map Value.string⟩
    (.cons
      ⟨rfl, (Yaml.Read.tells_bool hSize).map Value.bool⟩
      (.cons
        ⟨rfl,
          (Yaml.Read.tells_record hSize
            (MergeOptions.fieldsTell hSize) _).map
              Value.object⟩
        .nil))

variable {text : String}
variable {source : Yaml.Source}
variable {config : Config}

/- What is read of a document is what its tree tells. -/
theorem ofYaml_eq_ok_iff
    (hWrites : Yaml.Writes text source) :
    ofYaml text = .ok config ↔
      Yaml.IsOneDocument text ∧
        tell? source = some config := by
  have hSize :=
    (Yaml.Document.length_items_ofText text.toList).le
  unfold ofYaml
  rw [Yaml.Read.wholeText_eq_ok_iff]
  refine and_congr_right fun _ => ?_
  unfold Yaml.Writes at hWrites
  generalize (Yaml.Document.ofText text.toList).1 = document
    at hWrites hSize ⊢
  rcases hWrites with ⟨after, count, hHolds, hCount⟩
  have hSome : document.isEmpty = false := by
    rcases hHolds.exists_cons with ⟨item, rest, hItems, _⟩
    unfold Yaml.Document.isEmpty
    rw [hItems]
    rfl
  have hRecord :=
    Yaml.Read.tells_record hSize (fieldsTell hSize)
      "ResolverConfig" source _ _ _ hHolds hSize .root 0
      (by omega)
  have hConfig :
      Yaml.Read.Ends
        ((do
          let fields ←
            Yaml.Read.record "ResolverConfig" fieldReaders
              document .root
          return ofFields fields : Yaml.Read Config)
          ⟨document.items, 0⟩)
        (tell? source) after (0 + count) := by
    unfold tell?
    rw [Option.map_eq_bind]
    exact hRecord.bind fun _ _ _ hMost => ⟨_, hMost, rfl⟩
  simp only [hSome, Bool.false_eq_true, if_false]
  exact hConfig.exists_ok_iff

/- A document without a node is read as the defaults. -/
theorem ofYaml_of_items_eq_nil
    (hOne : Yaml.IsOneDocument text)
    (hNone :
      (Yaml.Document.ofText text.toList).1.items = []) :
    ofYaml text = .ok {} :=
  Yaml.Read.wholeText_of_items_eq_nil hOne hNone _ _

/- A blank text is read as the defaults, if it is read. -/
theorem eq_of_ofYaml_of_isBlankText
    (hBlank : Text.IsBlankText text)
    (hOk : ofYaml text = .ok config) :
    config = {} := by
  have hOne : Yaml.IsOneDocument text :=
    (Yaml.Read.wholeText_eq_ok_iff.mp hOk).1
  rcases Yaml.Document.items_ofText_of_isBlank hBlank with
    hNone | ⟨word, mark, rest, hItems, hWord⟩
  · rw [ofYaml_of_items_eq_nil hOne hNone] at hOk
    cases hOk
    rfl
  · have hWrites :
        Yaml.Writes text (.scalar none word .plain) := by
      refine ⟨rest, 0, ?_, Nat.zero_le _⟩
      rw [hItems]
      exact .here .scalar
    rcases Option.map_eq_some_iff.mp
        ((ofYaml_eq_ok_iff hWrites).mp hOk).2 with
      ⟨fields, hFields, _⟩
    simp [Yaml.Source.record?, hWord] at hFields

end Config

end Transclusion

------------------------------------------------------------
-- Loading
------------------------------------------------------------

namespace Transclusion

namespace Config

variable {text : String}
variable {value : Value}
variable {config : Config}

/- Null means the defaults. -/
theorem isMeant_null_iff :
    IsMeant .null config ↔ config = {} := by
  constructor
  · rintro (⟨_, rfl⟩ | hOk)
    · rfl
    · cases hOk
  · exact fun hEq => .inl ⟨rfl, hEq⟩

/- A text is loaded if its value means a configuration. -/
theorem load_eq_ok_iff
    {read : String → Except Fault String}
    {path : String}
    (hRead : read path = .ok text) :
    load read path = .ok config ↔
      ∃ value,
        parseText text = .ok value ∧
          IsMeant value config := by
  unfold load ofText
  rw [hRead]
  simp only
  cases parseText text with
  | error error => simp [Except.mapError, bind, Except.bind]
  | ok value =>
      simp only [Except.ok.injEq, exists_eq_left', bind,
        Except.bind]
      rw [mapError_eq_ok_iff]
      cases value with
      | null =>
          rw [isMeant_null_iff]
          simp [pure, Except.pure, eq_comm]
      | _ =>
          unfold IsMeant
          simp only [mapError_eq_ok_iff, reduceCtorEq,
            false_and, false_or]

/-
  The two readers of a configuration agree.  A configuration
  that both of them read is the same.  Comments alone are
  the defaults for both.  Of other texts that are not blank,
  both fail on what is not one document, and where a text
  has a value they read it alike, if its notation is common.
-/
theorem readers_agree
    {read : String → Except Fault String}
    {path text : String}
    (hRead : read path = .ok text) :
    (∀ loaded direct,
        load read path = .ok loaded →
          ofYaml text = .ok direct → loaded = direct) ∧
      (Yaml.isCommentary false text.toList = true →
        load read path = .ok {} ∧ ofYaml text = .ok {}) ∧
        (¬ Text.IsBlankText text →
          (¬ Yaml.IsOneDocument text →
              ∀ config,
                load read path ≠ .ok config ∧
                  ofYaml text ≠ .ok config) ∧
            ∀ value,
              parseText text = .ok value →
                (∀ source,
                    Yaml.Writes text source →
                      IsCommon source) →
                  ∀ config,
                    load read path = .ok config ↔
                      ofYaml text = .ok config) := by
  refine ⟨?_, ?_, fun hBlank => ⟨?_, ?_⟩⟩
  · intro loaded direct hLoad hDirect
    rcases (load_eq_ok_iff hRead).mp hLoad with
      ⟨value, hValue, hMeant⟩
    by_cases hBlank : Text.IsBlankText text
    · rw [eq_of_ofYaml_of_isBlankText hBlank hDirect]
      unfold parseText at hValue
      rw [if_pos hBlank] at hValue
      cases hValue
      exact isMeant_null_iff.mp hMeant
    · rcases parseText_eq_ok_cases hBlank hValue with
        ⟨hOne, ⟨hNone, rfl⟩ | ⟨source, hWrites, hSource⟩⟩
      · rw [ofYaml_of_items_eq_nil hOne hNone] at hDirect
        cases hDirect
        exact isMeant_null_iff.mp hMeant
      · have hTold :=
          ((ofYaml_eq_ok_iff hWrites).mp hDirect).2
        exact (eq_of_told_of_meant hSource hTold hMeant).symm
  · intro hText
    have hDocument :=
      Yaml.Document.ofText_of_isCommentary hText
    have hOne : Yaml.IsOneDocument text := by
      unfold Yaml.IsOneDocument
      rw [hDocument]
      exact ⟨rfl, rfl⟩
    have hNone :
        (Yaml.Document.ofText text.toList).1.items = [] := by
      rw [hDocument]
    have hNull := parseText_of_items_eq_nil hOne hNone
    exact
      ⟨(load_eq_ok_iff hRead).mpr
          ⟨.null, hNull, isMeant_null_iff.mpr rfl⟩,
        ofYaml_of_items_eq_nil hOne hNone⟩
  · intro hNot config
    constructor
    · intro hLoad
      rcases (load_eq_ok_iff hRead).mp hLoad with
        ⟨value, hValue, _⟩
      exact hNot (parseText_eq_ok_cases hBlank hValue).1
    · intro hDirect
      exact hNot (Yaml.Read.wholeText_eq_ok_iff.mp hDirect).1
  · intro value hValue hCommon config
    have hLoad :
        load read path = .ok config ↔
          IsMeant value config := by
      rw [load_eq_ok_iff hRead, hValue]
      simp
    rw [hLoad]
    rcases parseText_eq_ok_cases hBlank hValue with
      ⟨hOne, ⟨hNone, rfl⟩ | ⟨source, hWrites, hSource⟩⟩
    · rw [ofYaml_of_items_eq_nil hOne hNone,
        isMeant_null_iff, Except.ok.injEq, eq_comm]
    · have hEither :=
        exists_told_iff hSource (hCommon source hWrites)
      rw [ofYaml_eq_ok_iff hWrites, and_iff_right hOne]
      constructor
      · intro hMeant
        rcases hEither.mpr ⟨config, hMeant⟩ with
          ⟨told, hTold⟩
        rw [eq_of_told_of_meant hSource hTold hMeant] at hTold
        exact hTold
      · intro hTold
        rcases hEither.mp ⟨config, hTold⟩ with
          ⟨meant, hMeant⟩
        rw [← eq_of_told_of_meant hSource hTold hMeant]
          at hMeant
        exact hMeant

/- Reading that gives a text under every path. -/
def readAlways
    (text _path : String) : Except Fault String :=
  .ok text

/- An entry in quotes, below a comment. -/
def quotedText : String :=
  "# parts\nincludes_key: \"5\"\n"

/- The tree that the entry is. -/
def quotedSource : Yaml.Source :=
  .mapping none
    [(.scalar none "includes_key".toList .plain,
      .scalar none "5".toList .doubleQuoted)]

/- The entry is what the text writes. -/
theorem writes_quoted :
    Yaml.Writes quotedText quotedSource := by
  have hItems :
      (Yaml.Document.ofText quotedText.toList).1.items.map
          Yaml.Item.kind =
        [.mappingStart none,
          .scalar none "includes_key".toList .plain,
          .scalar none "5".toList .doubleQuoted,
          .mappingEnd] := by
    decide +kernel
  unfold Yaml.Writes
  generalize (Yaml.Document.ofText quotedText.toList).1 =
    document at hItems ⊢
  rcases document with ⟨items, size, error, anchors⟩
  simp only at hItems ⊢
  rcases List.map_eq_cons_iff.mp hItems with
    ⟨⟨_, start⟩, inner, rfl, rfl, hInner⟩
  rcases List.map_eq_cons_iff.mp hInner with
    ⟨⟨_, key⟩, behind, rfl, rfl, hBehind⟩
  rcases List.map_eq_cons_iff.mp hBehind with
    ⟨⟨_, value⟩, last, rfl, rfl, hLast⟩
  rcases List.map_eq_singleton_iff.mp hLast with
    ⟨⟨_, stop⟩, rfl, rfl⟩
  exact
    ⟨[], 0,
      .here
        (.mapping
          (.entry (.here .scalar) (.here .scalar)
            .noEntries)),
      Nat.zero_le _⟩

/- The notation of the entry is common. -/
theorem isCommon_quoted :
    IsCommon quotedSource := by
  refine
    List.forall_mem_singleton.mpr ⟨"includes_key", rfl, ?_⟩
  unfold Setting.commons settings
  simp only [List.map_cons, List.map_nil,
    List.forall_mem_cons]
  refine ⟨?_, ?_, ?_, ?_⟩
  · rintro _ s hString
    cases hString
    decide +kernel
  · exact fun hName => absurd hName (by decide)
  · exact fun hName => absurd hName (by decide)
  · exact List.forall_mem_nil _

/- An entry, a comment and a text cut off are read alike. -/
theorem readers_agree_quoted :
    load (readAlways quotedText) "conf.yaml" =
        .ok { includesKey := "5" } ∧
      load (readAlways "# defaults\n") "conf.yaml" =
        .ok {} ∧
      (∀ config,
        load (readAlways "merge: [") "conf.yaml" ≠
          .ok config) := by
  have hOne : ¬ Yaml.IsOneDocument "merge: [" := by
    intro hOne
    have hFault :
        (Yaml.Document.ofText
            "merge: [".toList).1.error.isSome =
          true := by
      decide +kernel
    rw [hOne.1] at hFault
    cases hFault
  have hValue :
      (parseText quotedText).toOption =
        some (.object [("includes_key", .string "5")]) := by
    decide +kernel
  have hDirect :
      (ofYaml quotedText).toOption =
        some { includesKey := "5" } := by
    decide +kernel
  rw [Yaml.Source.toOption_eq_some_iff] at hValue hDirect
  have hRead (text : String) :
      readAlways text "conf.yaml" = .ok text := by
    rfl
  have hCommon
      (source : Yaml.Source)
      (hWrites : Yaml.Writes quotedText source) :
      IsCommon source := by
    rw [hWrites.unique writes_quoted]
    exact isCommon_quoted
  have hQuoted := readers_agree (hRead quotedText)
  have hComment := readers_agree (hRead "# defaults\n")
  have hBroken := readers_agree (hRead "merge: [")
  refine ⟨?_, ?_, ?_⟩
  · exact
      ((hQuoted.2.2 (by decide +kernel)).2 _ hValue hCommon
        _).mpr hDirect
  · exact (hComment.2.1 (by decide +kernel)).1
  · intro config
    exact
      ((hBroken.2.2 (by decide +kernel)).1 hOne config).1

/-
  They do not agree on every text.  A key that looks like a
  number is one for the first reader, and as it is written
  for the second.
-/
theorem not_forall_readers_agree :
    ¬ ∀ (read : String → Except Fault String)
        (path text : String),
        read path = .ok text →
          ((∀ config,
              load read path ≠ .ok config ∧
                ofYaml text ≠ .ok config) ∨
            ∃ config,
              load read path = .ok config ∧
                ofYaml text = .ok config) := by
  intro hAgree
  have hDirect :
      (ofYaml "includes_key: 5\n").toOption =
        some { includesKey := "5" } := by
    decide +kernel
  have hLoad :
      (load (readAlways "includes_key: 5\n")
          "c.yaml").toOption =
        none := by
    decide +kernel
  rcases hAgree (readAlways "includes_key: 5\n") "c.yaml" _
      rfl with
    hNone | ⟨config, hOk, _⟩
  · rw [Yaml.Source.toOption_eq_some_iff] at hDirect
    exact (hNone _).2 hDirect
  · rw [hOk] at hLoad
    cases hLoad

end Config

end Transclusion
