import Transclusion.Proofs.Yaml.Escaped
import Transclusion.Proofs.Yaml.FlowTokens
import Transclusion.Proofs.Yaml.Words
import Transclusion.Value.Json

/-
  JSON texts are made of the tokens of flow collections.

  Key definitions include:
    * `Transclusion.Json.spelling`
    * `Transclusion.Value.isReadableJson`

  Key theorems include:
    * `Transclusion.Json.reads_indented`
    * `Transclusion.Json.tokens_indented`

  A string is read as it was written if every character of
  it is escaped or may stand within a line.  A key must also
  be short, for a colon is looked for only so far.
-/

------------------------------------------------------------
-- Readable Values
------------------------------------------------------------

namespace Transclusion

namespace Json

/-
  A character that is escaped, or that is read as it is
  wherever it stands.  The separators of lines and of
  paragraphs are left out, though they are read again too
  if they are in no key and no space stands beside them.
-/
def isReadable
    (c : Char) : Bool :=
  c.toNat < 0x20 || (Yaml.isAllowed c && !Yaml.isBreak c)

/- A text of such characters. -/
def isReadableText
    (s : String) : Bool :=
  s.toList.all isReadable

/- A text of such characters that is not too long as a key. -/
def isReadableKey
    (key : String) : Bool :=
  isReadableText key &&
    Yaml.byteCount (stringChars key) ≤ 1024

end Json

namespace Value

mutual

/- Whether every string and every key can be read. -/
def isReadableJson : Value → Bool
  | .string s => Json.isReadableText s
  | .array items => itemsAreReadableJson items
  | .object fields => fieldsAreReadableJson fields
  | _ => true

/- Whether all items can be read. -/
def itemsAreReadableJson : List Value → Bool
  | [] => true
  | item :: rest =>
      isReadableJson item && itemsAreReadableJson rest

/- Whether all fields can be read. -/
def fieldsAreReadableJson :
    List (String × Value) → Bool
  | [] => true
  | (key, value) :: rest =>
      Json.isReadableKey key && isReadableJson value &&
        fieldsAreReadableJson rest

end

/- A list can be read if each item can. -/
theorem itemsAreReadableJson_iff
    {items : List Value} :
    itemsAreReadableJson items = true ↔
      ∀ item ∈ items, item.isReadableJson = true := by
  induction items with
  | nil => simp [itemsAreReadableJson]
  | cons item rest ih =>
      rw [itemsAreReadableJson, Bool.and_eq_true_iff, ih,
        List.forall_mem_cons]

/- Fields can be read if each key and each value can. -/
theorem fieldsAreReadableJson_iff
    {fields : Fields} :
    fieldsAreReadableJson fields = true ↔
      ∀ field ∈ fields,
        Json.isReadableKey field.1 = true ∧
          field.2.isReadableJson = true := by
  induction fields with
  | nil => simp [fieldsAreReadableJson]
  | cons field rest ih =>
      rcases field with ⟨key, value⟩
      rw [fieldsAreReadableJson, Bool.and_eq_true_iff,
        Bool.and_eq_true_iff, ih, List.forall_mem_cons]

end Value

end Transclusion

------------------------------------------------------------
-- Strings
------------------------------------------------------------

namespace Transclusion

namespace Json

open Yaml

variable {c : Char}

/- How scalars of JSON texts are spelled. -/
def spelling : Spelling :=
  { layout := .json, style := fun _ => .doubleQuoted }

/- A plus stands before exponents, and texts are quoted. -/
theorem spelling_isFaithful :
    spelling.IsFaithful := by
  constructor
  · intro text hPlain
    cases hPlain
  · exact Or.inr rfl

/- A readable character that is no space is written for. -/
theorem quotedChar_stringChar
    (hReadable : isReadable c = true)
    (hSpace : c ≠ ' ') :
    QuotedChar false c (stringChar c) := by
  unfold stringChar
  split
  · rename_i hQuote
    subst hQuote
    exact .letter rfl rfl rfl
  split
  · rename_i _ hSlash
    subst hSlash
    exact .letter rfl rfl rfl
  split
  · rename_i _ _ hFeed
    subst hFeed
    exact .letter rfl rfl rfl
  split
  · rename_i _ _ _ hReturn
    subst hReturn
    exact .letter rfl rfl rfl
  split
  · rename_i _ _ _ _ hTab
    subst hTab
    exact .letter rfl rfl rfl
  split
  · rename_i _ _ _ _ _ hBack
    rw [← Char.ofNat_toNat c, hBack]
    exact .letter rfl rfl rfl
  split
  · rename_i _ _ _ _ _ _ hFeed
    rw [← Char.ofNat_toNat c, hFeed]
    exact .letter rfl rfl rfl
  split
  · rename_i _ _ _ _ _ _ _ hControl
    have hCode :
        QuotedChar false c
          ('\\' :: 'u' ::
            Text.padLeft 4 '0'
              ((Text.hexDigits c.toNat).map id)) :=
      quotedChar_code rfl rfl (by omega)
        (Nat.lt_of_lt_of_le hControl (by decide)) (by decide)
    rw [List.map_id] at hCode
    exact hCode
  · rename_i hQuote hSlash _ _ hTab _ _ hVisible
    unfold isReadable at hReadable
    simp only [hVisible, decide_false, Bool.false_or,
      Bool.and_eq_true_iff, Bool.not_eq_true'] at hReadable
    refine .plain ?_ hQuote fun _ => hSlash
    change (isWhite c || isBreak c) = false
    unfold isWhite
    simp only [hReadable.2, Bool.or_false,
      Bool.or_eq_false_iff, beq_eq_false_iff_ne]
    exact ⟨hSpace, hTab⟩

/- A readable text is written between quotes. -/
theorem quotedText_flatMap
    {text : List Char}
    (hReadable : ∀ c ∈ text, isReadable c = true) :
    QuotedText false text (text.flatMap stringChar) :=
  .flatMap
    (fun c hMem => quotedChar_stringChar (hReadable c hMem))
    rfl

/- A readable text is written within a line. -/
theorem isBreak_of_mem_flatMap
    {text : List Char}
    (hReadable : ∀ c ∈ text, isReadable c = true) :
    ∀ d ∈ text.flatMap stringChar, isBreak d = false := by
  intro d hMem
  rcases List.mem_flatMap.mp hMem with ⟨c, hChar, hWritten⟩
  by_cases hSpace : c = ' '
  · subst hSpace
    rw [List.mem_singleton.mp hWritten]
    rfl
  · exact
      (quotedChar_stringChar (hReadable c hChar)
        hSpace).isBreak_of_mem d hWritten

/- The characters of a readable text. -/
theorem isReadable_of_mem
    {s : String}
    (hReadable : isReadableText s = true) :
    ∀ c ∈ s.toList, isReadable c = true :=
  List.all_eq_true.mp hReadable

variable {size depth : Nat}
variable {more : List Char}
variable {allowed : Bool}

/- A string is one token. -/
theorem reads_string
    {s : String}
    (hReadable : isReadableText s = true) :
    FlowReads size ⟨stringChars s ++ more, depth, allowed⟩
      [spelling.textToken s] ⟨more, depth, false⟩ := by
  unfold stringChars
  rw [List.append_assoc]
  exact
    FlowReads.quoted
      (quotedText_flatMap (isReadable_of_mem hReadable))

/- A key with its colon is three tokens. -/
theorem reads_key
    {key : String}
    (hReadable : isReadableKey key = true) :
    FlowReads size
      ⟨stringChars key ++ ':' :: more, depth + 1, true⟩
      [.key, spelling.textToken key, .value]
      ⟨more, depth + 1, false⟩ := by
  unfold isReadableKey at hReadable
  rw [Bool.and_eq_true_iff, decide_eq_true_iff] at hReadable
  have hChars := isReadable_of_mem hReadable.1
  have hBytes := hReadable.2
  have hQuote : byteCount ['"'] = 1 := rfl
  have hByte : ('"').utf8Size = 1 := rfl
  unfold stringChars at hBytes ⊢
  rw [List.cons_append, byteCount_cons, byteCount_append]
    at hBytes
  rw [List.append_assoc]
  exact
    FlowReads.key (quotedText_flatMap hChars)
      (isBreak_of_mem_flatMap hChars) (by omega)

end Json

end Transclusion

------------------------------------------------------------
-- Values
------------------------------------------------------------

namespace Transclusion

namespace Json

open Yaml

variable {size depth level : Nat}
variable {rest : List Char}
variable {allowed : Bool}

/- A new line is a gap. -/
theorem isSpacing_of_mem_newLine
    (level : Nat) :
    ∀ c ∈ newLine level, isSpacing c = true := by
  unfold newLine
  rw [List.forall_mem_cons]
  exact
    ⟨rfl, List.forall_mem_replicate.mpr (Or.inr rfl)⟩

/- A value that is no collection is one token. -/
theorem reads_plain
    {value : Value}
    (hPlain : value.kind = .plain)
    (hReadable : value.isReadableJson = true)
    (hEnds : EndsPlain (decide (depth ≠ 0)) (trimGap rest)) :
    FlowReads size
      ⟨indented level value ++ rest, depth, allowed⟩
      (spelling.flowTokens value) ⟨rest, depth, false⟩ := by
  rw [Spelling.flowTokens_of_plain hPlain]
  cases value with
  | null =>
      rw [indented]
      exact isPlainWord_nullText.flowReads hEnds
  | bool b =>
      rw [indented]
      cases b
      · exact (isPlainWord_boolText false).flowReads hEnds
      · exact (isPlainWord_boolText true).flowReads hEnds
  | number n =>
      rw [indented]
      exact
        (isPlainWord_numberText spelling_isFaithful.plus
          n).flowReads hEnds
  | string s =>
      rw [indented]
      exact reads_string hReadable
  | array items => cases hPlain
  | object fields => cases hPlain

/- A bracket or a comma ends what stands before it. -/
theorem endsPlain_items
    (level : Nat)
    (items : List Value)
    (rest : List Char) :
    EndsPlain true
      (trimGap
        (indentedItems level items ++
          (newLine level ++ ']' :: rest))) := by
  cases items with
  | nil =>
      rw [indentedItems, List.nil_append]
      unfold trimGap
      rw [List.dropWhile_append_of_pos
        (isSpacing_of_mem_newLine level)]
      exact Or.inr ⟨rfl, rfl⟩
  | cons item more =>
      rw [indentedItems]
      exact Or.inr ⟨rfl, rfl⟩

/- A brace or a comma ends what stands before it. -/
theorem endsPlain_fields
    (level : Nat)
    (fields : Fields)
    (rest : List Char) :
    EndsPlain true
      (trimGap
        (indentedFields level fields ++
          (newLine level ++ '}' :: rest))) := by
  cases fields with
  | nil =>
      rw [indentedFields, List.nil_append]
      unfold trimGap
      rw [List.dropWhile_append_of_pos
        (isSpacing_of_mem_newLine level)]
      exact Or.inr ⟨rfl, rfl⟩
  | cons field more =>
      rcases field with ⟨key, value⟩
      rw [indentedFields]
      exact Or.inr ⟨rfl, rfl⟩

/- A value is read in front of whatever may end it. -/
def Reads
    (size depth level : Nat)
    (value : Value) : Prop :=
  ∀ rest allowed,
    EndsPlain (decide (depth ≠ 0)) (trimGap rest) →
      FlowReads size
        ⟨indented level value ++ rest, depth, allowed⟩
        (spelling.flowTokens value) ⟨rest, depth, false⟩

/- The items after the first one, with the closing bracket. -/
theorem reads_items
    {items : List Value}
    (hItems :
      ∀ item ∈ items, Reads size (depth + 1) (level + 1) item) :
    FlowReads size
      ⟨indentedItems level items ++
          (newLine level ++ ']' :: rest),
        depth + 1, allowed⟩
      (spelling.flowItems items ++ [.flowSequenceEnd])
      ⟨rest, depth, false⟩ := by
  induction items generalizing allowed with
  | nil =>
      rw [indentedItems, Spelling.flowItems, List.nil_append,
        List.nil_append]
      exact
        .behindGap (isSpacing_of_mem_newLine level)
          (.last .sequence)
  | cons item items ih =>
      rw [List.forall_mem_cons] at hItems
      have hItem :=
        hItems.1 _ true (endsPlain_items level items rest)
      have hRest :=
        FlowReads.behindGap
          (isSpacing_of_mem_newLine (level + 1))
          (hItem.trans (ih hItems.2))
      rw [indentedItems, Spelling.flowItems]
      simpa using FlowReads.entry.trans hRest

/- A key, a colon and a value. -/
theorem reads_field
    {key : String}
    {value : Value}
    (hKey : isReadableKey key = true)
    (hValue : Reads size (depth + 1) (level + 1) value)
    (hEnds : EndsPlain true (trimGap rest)) :
    FlowReads size
      ⟨stringChars key ++ ':' :: ' ' ::
          (indented (level + 1) value ++ rest),
        depth + 1, true⟩
      (.key :: spelling.textToken key :: .value ::
        spelling.flowTokens value)
      ⟨rest, depth + 1, false⟩ := by
  have hSpace : ∀ c ∈ [' '], isSpacing c = true :=
    List.forall_mem_singleton.mpr rfl
  apply (reads_key hKey).trans
  exact
    FlowReads.behindGap hSpace (hValue rest false hEnds)

/- The fields after the first one, with the closing brace. -/
theorem reads_fields
    {fields : Fields}
    (hFields :
      ∀ field ∈ fields,
        isReadableKey field.1 = true ∧
          Reads size (depth + 1) (level + 1) field.2) :
    FlowReads size
      ⟨indentedFields level fields ++
          (newLine level ++ '}' :: rest),
        depth + 1, allowed⟩
      (spelling.flowFields fields ++ [.flowMappingEnd])
      ⟨rest, depth, false⟩ := by
  induction fields generalizing allowed with
  | nil =>
      rw [indentedFields, Spelling.flowFields,
        List.nil_append, List.nil_append]
      exact
        .behindGap (isSpacing_of_mem_newLine level)
          (.last .mapping)
  | cons field fields ih =>
      rcases field with ⟨key, value⟩
      rw [List.forall_mem_cons] at hFields
      have hField :=
        reads_field hFields.1.1 hFields.1.2
          (endsPlain_fields level fields rest)
      have hRest :=
        FlowReads.behindGap
          (isSpacing_of_mem_newLine (level + 1))
          (hField.trans (ih hFields.2))
      rw [indentedFields, Spelling.flowFields]
      simpa using FlowReads.entry.trans hRest

/-
  The text of a readable value is read as its tokens, in
  front of what ends it.
-/
theorem reads_indented
    (value : Value)
    (hReadable : value.isReadableJson = true) :
    Reads size depth level value := by
  induction value using Value.induction
    generalizing depth level with
  | plain value hPlain =>
      intro rest allowed hEnds
      exact reads_plain hPlain hReadable hEnds
  | array items ih =>
      intro rest allowed hEnds
      have hParts :=
        Value.itemsAreReadableJson_iff.mp hReadable
      cases items with
      | nil =>
          rw [indented]
          exact
            (FlowReads.first .sequence).trans
              (FlowReads.last .sequence)
      | cons item items =>
          have hItems
              (part : Value)
              (hMem : part ∈ item :: items) :
              Reads size (depth + 1) (level + 1) part :=
            ih part hMem (hParts part hMem)
          rw [List.forall_mem_cons] at hItems
          have hFirst :=
            hItems.1 _ true (endsPlain_items level items rest)
          have hRest :=
            FlowReads.behindGap
              (isSpacing_of_mem_newLine (level + 1))
              (hFirst.trans (reads_items hItems.2))
          rw [indented, Spelling.flowTokens]
          simpa using (FlowReads.first .sequence).trans hRest
  | object fields ih =>
      intro rest allowed hEnds
      have hParts :=
        Value.fieldsAreReadableJson_iff.mp hReadable
      cases fields with
      | nil =>
          rw [indented]
          exact
            (FlowReads.first .mapping).trans
              (FlowReads.last .mapping)
      | cons field fields =>
          have hFields
              (part : String × Value)
              (hMem : part ∈ field :: fields) :
              isReadableKey part.1 = true ∧
                Reads size (depth + 1) (level + 1) part.2 :=
            ⟨(hParts part hMem).1,
              ih part hMem (hParts part hMem).2⟩
          rcases field with ⟨key, value⟩
          rw [List.forall_mem_cons] at hFields
          have hFirst :=
            reads_field hFields.1.1 hFields.1.2
              (endsPlain_fields level fields rest)
          have hRest :=
            FlowReads.behindGap
              (isSpacing_of_mem_newLine (level + 1))
              (hFirst.trans (reads_fields hFields.2))
          rw [indented, Spelling.flowTokens]
          simpa using (FlowReads.first .mapping).trans hRest

end Json

end Transclusion

------------------------------------------------------------
-- Characters
------------------------------------------------------------

namespace Transclusion

namespace Json

open Yaml

variable {level : Nat}
variable {c : Char}

/- Escapes of control characters are made of ASCII. -/
theorem isAllowed_of_mem_code
    (hControl : c.toNat < 32) :
    ∀ d ∈ '\\' :: 'u' ::
        Text.padLeft 4 '0' (Text.hexDigits c.toNat),
      isAllowed d = true := by
  have hAll :
      ∀ code < 32,
        ('\\' :: 'u' ::
            Text.padLeft 4 '0' (Text.hexDigits code)).all
          isAllowed = true := by
    decide +kernel
  exact List.all_eq_true.mp (hAll c.toNat hControl)

/- What is written for a readable character may occur. -/
theorem isAllowed_of_mem_stringChar
    (hReadable : isReadable c = true) :
    ∀ d ∈ stringChar c, isAllowed d = true := by
  unfold stringChar
  split
  · exact List.forall_iff_forall_mem.mp (by decide)
  split
  · exact List.forall_iff_forall_mem.mp (by decide)
  split
  · exact List.forall_iff_forall_mem.mp (by decide)
  split
  · exact List.forall_iff_forall_mem.mp (by decide)
  split
  · exact List.forall_iff_forall_mem.mp (by decide)
  split
  · exact List.forall_iff_forall_mem.mp (by decide)
  split
  · exact List.forall_iff_forall_mem.mp (by decide)
  split
  · rename_i hControl
    exact isAllowed_of_mem_code hControl
  · rename_i hVisible
    unfold isReadable at hReadable
    simp only [hVisible, decide_false, Bool.false_or,
      Bool.and_eq_true_iff] at hReadable
    intro d hMem
    rw [List.mem_singleton.mp hMem]
    exact hReadable.1

/- What is written for a readable text may occur. -/
theorem isAllowed_of_mem_stringChars
    {s : String}
    (hReadable : isReadableText s = true) :
    ∀ d ∈ stringChars s, isAllowed d = true := by
  intro d hMem
  unfold stringChars at hMem
  rw [List.cons_append, List.mem_cons, List.mem_append,
    List.mem_flatMap, List.mem_singleton] at hMem
  rcases hMem with rfl | ⟨c, hChar, hWritten⟩ | rfl
  · rfl
  · exact
      isAllowed_of_mem_stringChar
        (isReadable_of_mem hReadable c hChar) d hWritten
  · rfl

/- New lines may occur. -/
theorem isAllowed_of_mem_newLine
    (level : Nat) :
    ∀ d ∈ newLine level, isAllowed d = true := by
  unfold newLine
  rw [List.forall_mem_cons]
  exact
    ⟨rfl, List.forall_mem_replicate.mpr (Or.inr rfl)⟩

/- The items after the first one may occur in a text. -/
theorem isAllowedText_items
    {items : List Value}
    (hItems :
      ∀ item ∈ items,
        IsAllowedText (indented (level + 1) item)) :
    IsAllowedText (indentedItems level items) := by
  induction items with
  | nil => exact List.forall_mem_nil _
  | cons item items ih =>
      rw [List.forall_mem_cons] at hItems
      unfold IsAllowedText
      rw [indentedItems]
      simp only [List.cons_append, List.forall_mem_cons,
        List.forall_mem_append]
      exact
        ⟨rfl, ⟨isAllowed_of_mem_newLine _, hItems.1⟩,
          ih hItems.2⟩

/- A field may occur in a text if its value may. -/
theorem isAllowedText_field
    {key : String}
    {value : Value}
    (hKey : isReadableKey key = true)
    (hValue : IsAllowedText (indented (level + 1) value)) :
    IsAllowedText
      (newLine (level + 1) ++
        (stringChars key ++ ':' :: ' ' ::
          indented (level + 1) value)) := by
  unfold isReadableKey at hKey
  rw [Bool.and_eq_true_iff] at hKey
  unfold IsAllowedText
  simp only [List.forall_mem_cons, List.forall_mem_append]
  exact
    ⟨isAllowed_of_mem_newLine _,
      isAllowed_of_mem_stringChars hKey.1, rfl, rfl, hValue⟩

/- The fields after the first one may occur in a text. -/
theorem isAllowedText_fields
    {fields : Fields}
    (hFields :
      ∀ field ∈ fields,
        isReadableKey field.1 = true ∧
          IsAllowedText (indented (level + 1) field.2)) :
    IsAllowedText (indentedFields level fields) := by
  induction fields with
  | nil => exact List.forall_mem_nil _
  | cons field fields ih =>
      rcases field with ⟨key, value⟩
      rw [List.forall_mem_cons] at hFields
      have hField :=
        isAllowedText_field hFields.1.1 hFields.1.2
      have hMore := ih hFields.2
      unfold IsAllowedText at hField hMore ⊢
      rw [indentedFields]
      simp only [List.cons_append, List.append_assoc,
        List.forall_mem_cons, List.forall_mem_append]
        at hField ⊢
      exact
        ⟨rfl, hField.1, hField.2.1, hField.2.2.1,
          hField.2.2.2.1, hField.2.2.2.2, hMore⟩

/- The text of a readable value has no fault. -/
theorem isAllowedText_indented
    (value : Value)
    (hReadable : value.isReadableJson = true) :
    IsAllowedText (indented level value) := by
  induction value using Value.induction generalizing level with
  | plain value hPlain =>
      cases value with
      | null =>
          unfold IsAllowedText
          rw [indented]
          exact List.forall_iff_forall_mem.mp (by decide)
      | bool b =>
          unfold IsAllowedText
          rw [indented]
          cases b
          · exact List.forall_iff_forall_mem.mp (by decide)
          · exact List.forall_iff_forall_mem.mp (by decide)
      | number n =>
          have hWord :=
            isPlainWord_numberText spelling_isFaithful.plus n
          intro c hMem
          rw [indented] at hMem
          exact isAllowed_of_isPlainChar (hWord.chars c hMem)
      | string s =>
          unfold IsAllowedText
          rw [indented]
          exact isAllowed_of_mem_stringChars hReadable
      | array items => cases hPlain
      | object fields => cases hPlain
  | array items ih =>
      have hParts :=
        Value.itemsAreReadableJson_iff.mp hReadable
      cases items with
      | nil =>
          unfold IsAllowedText
          rw [indented]
          exact List.forall_iff_forall_mem.mp (by decide)
      | cons item items =>
          have hItems
              (part : Value)
              (hMem : part ∈ item :: items) :
              IsAllowedText (indented (level + 1) part) :=
            ih part hMem (hParts part hMem)
          rw [List.forall_mem_cons] at hItems
          unfold IsAllowedText
          rw [indented]
          simp only [List.cons_append, List.append_assoc,
            List.forall_mem_cons, List.forall_mem_append]
          exact
            ⟨rfl, isAllowed_of_mem_newLine _, hItems.1,
              isAllowedText_items hItems.2,
              isAllowed_of_mem_newLine _, rfl,
              List.forall_mem_nil _⟩
  | object fields ih =>
      have hParts :=
        Value.fieldsAreReadableJson_iff.mp hReadable
      cases fields with
      | nil =>
          unfold IsAllowedText
          rw [indented]
          exact List.forall_iff_forall_mem.mp (by decide)
      | cons field fields =>
          have hFields
              (part : String × Value)
              (hMem : part ∈ field :: fields) :
              isReadableKey part.1 = true ∧
                IsAllowedText (indented (level + 1) part.2) :=
            ⟨(hParts part hMem).1,
              ih part hMem (hParts part hMem).2⟩
          rcases field with ⟨key, value⟩
          rw [List.forall_mem_cons] at hFields
          have hField :=
            isAllowedText_field hFields.1.1 hFields.1.2
          have hMore := isAllowedText_fields hFields.2
          unfold IsAllowedText at hField hMore ⊢
          rw [indented]
          simp only [List.cons_append, List.append_assoc,
            List.forall_mem_cons, List.forall_mem_append]
            at hField ⊢
          exact
            ⟨rfl, hField.1, hField.2.1, hField.2.2.1,
              hField.2.2.2.1, hField.2.2.2.2, hMore,
              isAllowed_of_mem_newLine _, rfl,
              List.forall_mem_nil _⟩

end Json

end Transclusion

------------------------------------------------------------
-- Texts
------------------------------------------------------------

namespace Transclusion

namespace Json

open Yaml

/- The tokens of the text of a readable value. -/
theorem tokens_indented
    (value : Value)
    (hReadable : value.isReadableJson = true) :
    (TokenStream.ofText (indented 0 value)).tokens.map
        Token.kind =
      .streamStart :: spelling.flowTokens value ++
        [.streamEnd] := by
  have hReads : Reads (indented 0 value).length 0 0 value :=
    reads_indented value hReadable
  have hWhole := hReads [] true trivial
  rw [List.append_nil] at hWhole
  exact
    hWhole.tokens_ofText
      (isAllowedText_indented value hReadable)

/- The text of a value begins with a visible character. -/
theorem exists_indented_cons
    (level : Nat)
    (value : Value) :
    ∃ c more,
      indented level value = c :: more ∧
        Text.isBlank c = false := by
  cases value with
  | null => exact ⟨_, _, rfl, rfl⟩
  | bool b =>
      cases b
      · exact ⟨_, _, rfl, rfl⟩
      · exact ⟨_, _, rfl, rfl⟩
  | number n =>
      have hWord :=
        isPlainWord_numberText spelling_isFaithful.plus n
      rcases hWord.first with ⟨c, more, hText, _⟩
      have hCode :=
        toNat_of_isPlainChar
          (hWord.chars c (hText ▸ List.mem_cons_self))
      refine ⟨c, more, hText, ?_⟩
      unfold Text.isBlank
      simp only [Bool.or_eq_false_iff, Bool.and_eq_false_iff,
        decide_eq_false_iff_not, beq_eq_false_iff_ne]
      omega
  | string s => exact ⟨_, _, rfl, rfl⟩
  | array items =>
      cases items
      · exact ⟨_, _, rfl, rfl⟩
      · exact ⟨_, _, rfl, rfl⟩
  | object fields =>
      cases fields
      · exact ⟨_, _, rfl, rfl⟩
      · exact ⟨_, _, rfl, rfl⟩

/- No value is written as a blank text. -/
theorem not_isBlankText_indentedJson
    (value : Value) :
    ¬ Text.IsBlankText value.indentedJson := by
  intro hBlank
  rcases exists_indented_cons 0 value with
    ⟨c, more, hText, hVisible⟩
  have hMem : c ∈ value.indentedJson.toList := by
    unfold Value.indentedJson
    rw [String.toList_ofList, hText]
    exact List.mem_cons_self
  rw [hBlank c hMem] at hVisible
  cases hVisible

end Json

/-
  A value that is nested no deeper than texts may be is
  read from its JSON text, if it can be read at all.
-/
theorem parseText_indentedJson_of_nesting
    {value : Value}
    (hReadable : value.isReadableJson = true)
    (hDepth : value.nesting ≤ Yaml.Node.maxDepth)
    (hKeys : value.hasDistinctKeys = true) :
    parseText value.indentedJson = .ok value := by
  apply
    Json.spelling_isFaithful.parseText_of_events hDepth hKeys
      (Json.not_isBlankText_indentedJson value)
  unfold Value.indentedJson Yaml.EventStream.ofText
  rw [String.toList_ofList]
  exact
    Yaml.Spelling.events_of_flowTokens
      (Json.tokens_indented value hReadable)

end Transclusion
