import Transclusion.Proofs.Yaml.BlockTokens
import Transclusion.Proofs.Yaml.Words
import Transclusion.Proofs.Yaml.WrittenScalar

/-
  YAML texts are made of the tokens of block collections.

  Key definitions include:
    * `Transclusion.Yaml.Block.spelling`
    * `Transclusion.Yaml.Block.ReadsContent`

  Key theorems include:
    * `Transclusion.Yaml.Block.readsContent`
    * `Transclusion.Yaml.Block.tokens_root`

  A value is read behind the mark in front of it, up to what
  is indented less.
-/

------------------------------------------------------------
-- Values without Parts
------------------------------------------------------------

namespace Transclusion

namespace Yaml

namespace Block

/- How scalars of YAML texts are spelled. -/
def spelling : Spelling :=
  { layout := .yaml, style := writtenStyle }

/- A text without quotes is read as itself. -/
theorem spelling_isFaithful :
    spelling.IsFaithful := by
  constructor
  · intro text hPlain
    have hWritten := written_writtenScalar 0 text
    rw [show writtenStyle text = .plain from hPlain] at hWritten
    generalize writtenScalar 0 text = written at hWritten
    cases hWritten with
    | plain hShown hReads => exact ofPlain_of_readsAsText hReads
  · exact Or.inl rfl

/- A value without parts: a scalar or an empty collection. -/
def IsLeaf : Value → Prop
  | .array (_ :: _) => False
  | .object (_ :: _) => False
  | _ => True

/- Every value has no parts, or a first one. -/
theorem leaf_cases
    (value : Value) :
    IsLeaf value ∨
      (∃ item rest, value = .array (item :: rest)) ∨
        ∃ key inner rest,
          value = .object ((key, inner) :: rest) := by
  match value with
  | .null => exact Or.inl trivial
  | .bool _ => exact Or.inl trivial
  | .number _ => exact Or.inl trivial
  | .string _ => exact Or.inl trivial
  | .array [] => exact Or.inl trivial
  | .array (_ :: _) => exact Or.inr (Or.inl ⟨_, _, rfl⟩)
  | .object [] => exact Or.inl trivial
  | .object ((_, _) :: _) =>
      exact Or.inr (Or.inr ⟨_, _, _, rfl⟩)

/- A value without parts is written on a line of its own. -/
theorem root_leaf
    {value : Value}
    (hLeaf : IsLeaf value) :
    root value = leaf 0 value := by
  match value with
  | .null => rfl
  | .bool _ => rfl
  | .number _ => rfl
  | .string _ => rfl
  | .array [] => rfl
  | .array (_ :: _) => cases hLeaf
  | .object [] => rfl
  | .object (_ :: _) => cases hLeaf

variable {size count level : Nat}
variable {text rest : List Char}
variable {levels : List Nat}
variable {column columnAfter : Int}
variable {allowed : Bool}

/- A word is a scalar in a block collection. -/
theorem reads_word
    (hWord : IsPlainWord text)
    (hInside : levelOf levels < column)
    (hEnd : EndsLine count rest columnAfter)
    (hOuter : columnAfter ≤ levelOf levels) :
    BlockReads size
      ⟨text ++ (lineGap count ++ rest), column, levels,
        allowed⟩
      [.scalar text .plain]
      ⟨rest, columnAfter, levels, true⟩ := by
  refine .plain (hWord.plainText false) ⟨?_, ?_, ?_⟩ hInside
    hEnd hOuter
  · exact hWord.beginsToken _
  · have hStarts := hWord.startsPlain (lineGap count ++ rest)
      false
    rcases hWord.first with ⟨first, more, rfl, _⟩
    exact hStarts
  · have hSecond := hWord.isGap_second (lineGap count ++ rest)
    rcases hWord.first with ⟨first, more, rfl, _⟩
    exact hSecond

/- A value without parts is read with its line. -/
theorem reads_leaf
    {value : Value}
    (hLeaf : IsLeaf value)
    (hInside : levelOf levels < column)
    (hEnd : EndsLine count rest columnAfter)
    (hOuter : columnAfter ≤ levelOf levels)
    (hLevel : level = (max (levelOf levels) 0).toNat)
    (simple : Bool) :
    BlockReads size
      ⟨leaf level value ++ (List.replicate count ' ' ++ rest),
        column, levels, allowed⟩
      (spelling.blockTokens simple value)
      ⟨rest, columnAfter, levels, true⟩ := by
  have hGap (written : List Char) :
      written ++ ['\n'] ++ (List.replicate count ' ' ++ rest) =
        written ++ (lineGap count ++ rest) := by
    rw [List.append_assoc]
    rfl
  cases value with
  | null =>
      change BlockReads size ⟨word .null ++ ['\n'] ++ _, _, _, _⟩
        _ _
      rw [hGap]
      exact
        reads_word isPlainWord_nullText hInside hEnd hOuter
  | bool b =>
      change BlockReads size
        ⟨word (.bool b) ++ ['\n'] ++ _, _, _, _⟩ _ _
      rw [hGap]
      exact
        reads_word (isPlainWord_boolText b) hInside hEnd hOuter
  | number n =>
      change BlockReads size
        ⟨word (.number n) ++ ['\n'] ++ _, _, _, _⟩ _ _
      rw [hGap]
      exact
        reads_word
          (isPlainWord_numberText spelling_isFaithful.plus n)
          hInside hEnd hOuter
  | string s =>
      exact .scalar hInside hEnd hOuter (by rw [hLevel])
  | array items =>
      cases items with
      | nil => exact .empty .sequence hInside hEnd
      | cons item rest => cases hLeaf
  | object fields =>
      cases fields with
      | nil => exact .empty .mapping hInside hEnd
      | cons field rest => cases hLeaf

end Block

end Yaml

end Transclusion

------------------------------------------------------------
-- Entries
------------------------------------------------------------

namespace Transclusion

namespace Yaml

variable {size indent : Nat}
variable {written more : List Char}
variable {produced others : List TokenKind}
variable {before levels : List Nat}

/-
  An entry at a column is read up to what is not indented
  any more than that.  It may open the collection.
-/
def ReadsEntry
    (size : Nat)
    (written : List Char)
    (produced : List TokenKind)
    (indent : Nat)
    (before levels : List Nat) : Prop :=
  ∀ ⦃count : Nat⦄ ⦃rest : List Char⦄ ⦃column : Int⦄,
    EndsLine count rest column →
      column ≤ (indent : Int) →
        BlockReads size
          ⟨written ++ (List.replicate count ' ' ++ rest),
            (indent : Int), before, true⟩
          produced ⟨rest, column, indent :: levels, true⟩

/- Lines of entries are read, none of which need be there. -/
def ReadsLines
    (size : Nat)
    (written : List Char)
    (produced : List TokenKind)
    (indent : Nat)
    (levels : List Nat) : Prop :=
  ∀ ⦃count : Nat⦄ ⦃rest : List Char⦄ ⦃column : Int⦄,
    EndsLine count rest column →
      column ≤ (indent : Int) →
        ∃ countBefore text columnBefore,
          written ++ (List.replicate count ' ' ++ rest) =
              List.replicate countBefore ' ' ++ text ∧
            EndsLine countBefore text columnBefore ∧
              columnBefore ≤ (indent : Int) ∧
                BlockReads size
                  ⟨text, columnBefore, indent :: levels, true⟩
                  produced
                  ⟨rest, column, indent :: levels, true⟩

/- No lines at all. -/
theorem ReadsLines.nil :
    ReadsLines size [] [] indent levels :=
  fun _ _ _ hEnd hOuter =>
    ⟨_, _, _, rfl, hEnd, hOuter, .refl _⟩

/- Lines behind an entry. -/
theorem ReadsEntry.append
    (hEntry :
      ReadsEntry size written produced indent before levels)
    (hLines : ReadsLines size more others indent levels) :
    ReadsEntry size (written ++ more) (produced ++ others)
      indent before levels := by
  intro count rest column hEnd hOuter
  rcases hLines hEnd hOuter with
    ⟨countBefore, text, columnBefore, hText, hBefore, hInner,
      hReads⟩
  rw [List.append_assoc, hText]
  exact (hEntry hBefore hInner).trans hReads

/- A collection that is indented more ends with its lines. -/
theorem ReadsEntry.close
    {outer : Nat}
    (hEntry :
      ReadsEntry size written produced indent (outer :: levels)
        (outer :: levels))
    (hLess : outer < indent)
    {count : Nat}
    {rest : List Char}
    {column : Int}
    (hEnd : EndsLine count rest column)
    (hOuter : column ≤ (outer : Int)) :
    BlockReads size
      ⟨written ++ (List.replicate count ' ' ++ rest),
        (indent : Int), outer :: levels, true⟩
      (produced ++ [.blockEnd])
      ⟨rest, column, outer :: levels, true⟩ :=
  (hEntry hEnd (by omega)).trans
    (BlockReads.close (by omega))

/- An entry and its lines, on a line of their own. -/
theorem ReadsLines.cons
    (hEntry :
      ReadsEntry size written produced indent
        (indent :: levels) levels)
    (hSome : written ≠ [])
    (hStarts : ∀ rest, StartsToken (written ++ rest))
    (hLines : ReadsLines size more others indent levels) :
    ReadsLines size
      (List.replicate indent ' ' ++ (written ++ more))
      (produced ++ others) indent levels := by
  intro count rest column hEnd hOuter
  have hSpaces :=
    hStarts (more ++ (List.replicate count ' ' ++ rest))
  refine
    ⟨indent,
      written ++ more ++ (List.replicate count ' ' ++ rest),
      (indent : Int), by rw [List.append_assoc], ?_,
      Int.le_refl _, hEntry.append hLines hEnd hOuter⟩
  refine ⟨?_, ?_, ?_⟩
  · rw [if_neg (by simp [hSome])]
  · rw [List.append_assoc]
    exact hSpaces
  · intro hNone
    exact absurd hNone (by simp [hSome])

end Yaml

end Transclusion

------------------------------------------------------------
-- Contents
------------------------------------------------------------

namespace Transclusion

namespace Yaml

namespace Block

/-
  What stands behind a mark is read, up to what is indented
  no more than the mark.  A simple key is read with its colon
  first, so that the gap in front of the value depends on
  the place of the colon.
-/
structure ReadsContent
    (value : Value) : Prop where
  behindMark :
    ∀ (size : Nat) {indent count : Nat} (levels : List Nat)
        {rest : List Char} {column : Int},
      EndsLine count rest column →
        column ≤ (indent : Int) →
          ∃ text,
            content false indent value = ' ' :: text ∧
              text ≠ [] ∧
                BlockReads size
                  ⟨text ++ (List.replicate count ' ' ++ rest),
                    ((indent + 2 : Nat) : Int),
                    indent :: levels, true⟩
                  (spelling.blockTokens false value)
                  ⟨rest, column, indent :: levels, true⟩
  behindKey :
    ∀ {size indent : Nat} (colon : Nat) {count : Nat}
        {levels : List Nat} {rest : List Char} {column : Int},
      indent ≤ colon →
        EndsLine count rest column →
          column ≤ (indent : Int) →
            ∃ gap text start allowed,
              content true indent value = gap ++ text ∧
                text ≠ [] ∧
                  KeyGap colon gap start allowed ∧
                    BlockReads size
                      ⟨text ++
                          (List.replicate count ' ' ++ rest),
                        (start : Int), indent :: levels,
                        allowed⟩
                      (spelling.blockTokens true value)
                      ⟨rest, column, indent :: levels, true⟩

variable {indent : Nat}
variable {starts : List TokenKind}
variable {before levels : List Nat}

/- The entry of a sequence. -/
theorem reads_item
    (size : Nat)
    {item : Value}
    (hItem : ReadsContent item)
    (hOpens :
      Opens .blockSequenceStart indent before starts
        (indent :: levels)) :
    ReadsEntry size ('-' :: content false indent item)
      (starts ++ .blockEntry :: spelling.blockTokens false item)
      indent before levels := by
  intro count rest column hEnd hOuter
  rcases hItem.behindMark size levels hEnd hOuter with
    ⟨text, hContent, hSome, hReads⟩
  rw [hContent, List.append_cons]
  exact
    (BlockReads.entry hOpens (by simp [hSome])).trans hReads

/- The entry of a mapping. -/
theorem reads_field
    (size : Nat)
    {key : String}
    {value : Value}
    (hValue : ReadsContent value)
    (hOpens :
      Opens .blockMappingStart indent before starts
        (indent :: levels)) :
    ReadsEntry size
      (keyPart indent key ++
        content (isSimpleKey key) indent value)
      (starts ++ .key :: spelling.textToken key :: .value ::
        spelling.blockTokens (isSimpleKey key) value)
      indent before levels := by
  intro count rest column hEnd hOuter
  cases hSimple : isSimpleKey key with
  | true =>
      let written :=
        (writtenScalar (indent + 2) key.toList).dropLast
      rcases hValue.behindKey (indent + written.length)
          (by omega) hEnd hOuter with
        ⟨gap, text, start, allowed, hContent, hSome, hGap,
          hReads⟩
      have hPart : keyPart indent key = written ++ [':'] := by
        unfold keyPart
        rw [hSimple]
        rfl
      have hKey :=
        (BlockReads.key hSimple rfl hOpens hGap
          (show text ++ (List.replicate count ' ' ++ rest) ≠ []
            by simp [hSome])).trans hReads
      rw [hPart, hContent]
      simpa [spelling, Spelling.textToken] using hKey
  | false =>
      rcases hValue.behindMark size levels hEnd hOuter with
        ⟨text, hContent, hSome, hReads⟩
      let behind := text ++ (List.replicate count ' ' ++ rest)
      have hBehind : behind ≠ [] := by
        simp [behind, hSome]
      have hPart :
          keyPart indent key =
            '?' :: ' ' ::
              (writtenScalar (indent + 2) key.toList ++
                (List.replicate indent ' ' ++ [':'])) := by
        unfold keyPart
        rw [hSimple]
        simp [spaces]
      have hLine :
          EndsLine indent (':' :: ' ' :: behind) indent :=
        ⟨rfl,
          (beginsToken_indicator (by decide) (' ' :: behind)).starts,
          fun hNone => by cases hNone⟩
      have hScalar :
          BlockReads size
            ⟨writtenScalar (indent + 2) key.toList ++
                (List.replicate indent ' ' ++
                  ':' :: ' ' :: behind),
              ((indent + 2 : Nat) : Int), indent :: levels,
              true⟩
            [spelling.textToken key]
            ⟨':' :: ' ' :: behind, (indent : Int),
              indent :: levels, true⟩ :=
        .scalar (Int.ofNat_lt.mpr (by omega)) hLine
          (Int.le_refl _) (by rw [toNat_levelOf])
      have hKey :=
        ((BlockReads.keyMark hOpens (by simp)).trans
          hScalar).trans
          ((BlockReads.valueMark hBehind).trans hReads)
      rw [hPart, hContent]
      simpa [behind] using hKey

/- Behind a mark the text goes on in the same line. -/
theorem exists_content
    (indent : Nat)
    (value : Value) :
    ∃ text, content false indent value = ' ' :: text := by
  match value with
  | .null => exact ⟨_, rfl⟩
  | .bool _ => exact ⟨_, rfl⟩
  | .number _ => exact ⟨_, rfl⟩
  | .string _ => exact ⟨_, rfl⟩
  | .array [] => exact ⟨_, rfl⟩
  | .array (_ :: _) => exact ⟨_, rfl⟩
  | .object [] => exact ⟨_, rfl⟩
  | .object ((_, _) :: _) => exact ⟨_, rfl⟩

/- A key begins a token. -/
theorem startsToken_keyPart
    (indent : Nat)
    (key : String)
    (rest : List Char) :
    keyPart indent key ≠ [] ∧
      StartsToken (keyPart indent key ++ rest) := by
  unfold keyPart
  cases hSimple : isSimpleKey key with
  | true =>
      refine ⟨by simp, ?_⟩
      rw [if_pos rfl, List.append_assoc]
      exact startsToken_key hSimple _ rest
  | false =>
      exact
        ⟨List.cons_ne_nil _ _,
          (beginsToken_indicator (by decide) _).starts⟩

/- The entries of a sequence behind the first one. -/
theorem reads_items
    (size : Nat)
    {items : List Value}
    (hItems : ∀ item ∈ items, ReadsContent item) :
    ReadsLines size (Block.items indent items)
      (spelling.blockItems items) indent levels := by
  induction items with
  | nil => exact ReadsLines.nil
  | cons item items ih =>
      rw [List.forall_mem_cons] at hItems
      have hEntry :
          ReadsEntry size ('-' :: content false indent item) _
            indent (indent :: levels) levels :=
        reads_item size hItems.1 .next
      have hLines :=
        ReadsLines.cons hEntry (List.cons_ne_nil _ _)
          (fun rest => by
            rcases exists_content indent item with
              ⟨text, hContent⟩
            rw [hContent]
            exact beginsToken_dash.starts)
          (ih hItems.2)
      rw [Block.items, Spelling.blockItems]
      simpa [spaces] using hLines

/- The entries of a mapping behind the first one. -/
theorem reads_fields
    (size : Nat)
    {fields : Fields}
    (hFields : ∀ field ∈ fields, ReadsContent field.2) :
    ReadsLines size (Block.fields indent fields)
      (spelling.blockFields fields) indent levels := by
  induction fields with
  | nil => exact ReadsLines.nil
  | cons field fields ih =>
      rw [List.forall_mem_cons] at hFields
      rcases field with ⟨key, value⟩
      have hEntry :
          ReadsEntry size
            (keyPart indent key ++
              content (isSimpleKey key) indent value) _ indent
            (indent :: levels) levels :=
        reads_field size hFields.1 .next
      have hLines :=
        ReadsLines.cons hEntry
          (by simp [(startsToken_keyPart indent key []).1])
          (fun rest => by
            rw [List.append_assoc]
            exact (startsToken_keyPart indent key _).2)
          (ih hFields.2)
      rw [Block.fields, Spelling.blockFields]
      simpa [spaces] using hLines

/- A sequence without its end. -/
theorem reads_sequence
    (size : Nat)
    {item : Value}
    {rest : List Value}
    (hItems : ∀ part ∈ item :: rest, ReadsContent part)
    (hOpens :
      Opens .blockSequenceStart indent before starts
        (indent :: levels)) :
    ReadsEntry size
      ('-' :: content false indent item ++
        Block.items indent rest)
      (starts ++ .blockEntry ::
        (spelling.blockTokens false item ++
          spelling.blockItems rest))
      indent before levels := by
  rw [List.forall_mem_cons] at hItems
  have hWhole :=
    (reads_item size hItems.1 hOpens).append
      (reads_items size hItems.2)
  simpa only [List.append_assoc, List.cons_append] using hWhole

/- A mapping without its end. -/
theorem reads_mapping
    (size : Nat)
    {key : String}
    {value : Value}
    {rest : Fields}
    (hFields :
      ∀ field ∈ (key, value) :: rest, ReadsContent field.2)
    (hOpens :
      Opens .blockMappingStart indent before starts
        (indent :: levels)) :
    ReadsEntry size
      (keyPart indent key ++
        content (isSimpleKey key) indent value ++
          Block.fields indent rest)
      (starts ++ .key :: spelling.textToken key :: .value ::
        (spelling.blockTokens (isSimpleKey key) value ++
          spelling.blockFields rest))
      indent before levels := by
  rw [List.forall_mem_cons] at hFields
  have hEntry :
      ReadsEntry size
        (keyPart indent key ++
          content (isSimpleKey key) indent value) _ indent
        before levels :=
    reads_field size hFields.1 hOpens
  have hWhole := hEntry.append (reads_fields size hFields.2)
  simpa only [List.append_assoc, List.cons_append] using hWhole

/- Two columns behind an entry a collection opens. -/
theorem opens_inner
    (kind : TokenKind)
    (indent : Nat)
    (levels : List Nat) :
    Opens kind (indent + 2) (indent :: levels) [kind]
      ((indent + 2) :: indent :: levels) := by
  apply Opens.first
  intro level hMem
  cases hMem
  omega

/- A value without parts goes on in the same line. -/
theorem content_leaf
    {value : Value}
    (hLeaf : IsLeaf value)
    (simple : Bool)
    (indent : Nat) :
    content simple indent value =
      ' ' :: leaf indent value := by
  match value with
  | .null => rfl
  | .bool _ => rfl
  | .number _ => rfl
  | .string _ => rfl
  | .array [] => rfl
  | .array (_ :: _) => cases hLeaf
  | .object [] => rfl
  | .object (_ :: _) => cases hLeaf

/- It is written with its line end at least. -/
theorem leaf_ne_nil
    (indent : Nat)
    (value : Value) :
    leaf indent value ≠ [] := by
  have hWord (value : Value) : word value ++ ['\n'] ≠ [] := by
    simp
  match value with
  | .null => exact hWord .null
  | .bool b => exact hWord (.bool b)
  | .number n => exact hWord (.number n)
  | .string s =>
      change writtenScalar (indent + 2) s.toList ≠ []
      have hWritten :=
        written_writtenScalar (indent + 2) s.toList
      generalize writtenStyle s.toList = style,
        writtenScalar (indent + 2) s.toList = written
        at hWritten
      cases hWritten with
      | plain hShown hReads => simp
      | single hQuotable => exact List.cons_ne_nil _ _
      | double => exact List.cons_ne_nil _ _
      | literal hFeed hWritable =>
          rw [literal, literalHeader_eq]
          exact List.cons_ne_nil _ _
  | .array items => exact hWord (.array items)
  | .object fields => exact hWord (.object fields)

/- A value without parts is read behind a mark. -/
theorem readsContent_leaf
    {value : Value}
    (hLeaf : IsLeaf value) :
    ReadsContent value := by
  have hContent (simple : Bool) (indent : Nat) :
      content simple indent value =
        [' '] ++ leaf indent value :=
    content_leaf hLeaf simple indent
  have hSome (indent : Nat) : leaf indent value ≠ [] :=
    leaf_ne_nil indent value
  have hInside {indent column : Nat} (levels : List Nat)
      (hColumn : indent ≤ column) :
      levelOf (indent :: levels) < ((column + 2 : Nat) : Int) :=
    Int.ofNat_lt.mpr (by omega)
  constructor
  · intro size indent count levels rest column hEnd hOuter
    refine ⟨_, hContent false indent, hSome indent, ?_⟩
    exact
      reads_leaf hLeaf (hInside levels (Nat.le_refl indent))
        hEnd hOuter (by rw [toNat_levelOf]) false
  · intro size indent colon count levels rest column hColon
      hEnd hOuter
    refine
      ⟨_, _, _, _, hContent true indent, hSome indent, .space,
        ?_⟩
    exact
      reads_leaf hLeaf (hInside levels hColon) hEnd hOuter
        (by rw [toNat_levelOf]) true

/- Every value is read behind a mark. -/
theorem readsContent
    (value : Value) :
    ReadsContent value := by
  induction value using Value.induction with
  | plain value hPlain =>
      apply readsContent_leaf
      cases value with
      | null => trivial
      | bool b => trivial
      | number n => trivial
      | string s => trivial
      | array items => cases hPlain
      | object fields => cases hPlain
  | array items ih =>
      cases items with
      | nil => exact readsContent_leaf trivial
      | cons item rest =>
          constructor
          · intro size indent count levels after column hEnd
              hOuter
            have hWhole :=
              ReadsEntry.close
                (reads_sequence size ih
                  (opens_inner .blockSequenceStart indent
                    levels))
                (by omega) hEnd hOuter
            refine ⟨_, rfl, List.cons_ne_nil _ _, ?_⟩
            simpa [Spelling.blockTokens] using hWhole
          · intro size indent colon count levels after column
              hColon hEnd hOuter
            have hWhole :=
              reads_sequence size ih
                (show Opens .blockSequenceStart indent
                    (indent :: levels) [] (indent :: levels)
                  from .next)
                hEnd hOuter
            refine
              ⟨lineGap indent,
                '-' :: (content false indent item ++
                  Block.items indent rest), _, _,
                ?_, List.cons_ne_nil _ _, .line indent, ?_⟩
            · rw [content]
              simp [lineGap, spaces]
            · simpa [Spelling.blockTokens] using hWhole
  | object fields ih =>
      cases fields with
      | nil => exact readsContent_leaf trivial
      | cons field rest =>
          rcases field with ⟨key, value⟩
          have hSome (indent : Nat) :
              keyPart (indent + 2) key ++
                  content (isSimpleKey key) (indent + 2) value ++
                    Block.fields (indent + 2) rest ≠
                [] := by
            simp [(startsToken_keyPart (indent + 2) key []).1]
          constructor
          · intro size indent count levels after column hEnd
              hOuter
            have hWhole :=
              ReadsEntry.close
                (reads_mapping size ih
                  (opens_inner .blockMappingStart indent
                    levels))
                (by omega) hEnd hOuter
            refine ⟨_, rfl, hSome indent, ?_⟩
            simpa [Spelling.blockTokens] using hWhole
          · intro size indent colon count levels after column
              hColon hEnd hOuter
            have hWhole :=
              ReadsEntry.close
                (reads_mapping size ih
                  (opens_inner .blockMappingStart indent
                    levels))
                (by omega) hEnd hOuter
            refine
              ⟨lineGap (indent + 2), _, _, _, ?_,
                hSome indent, .line (indent + 2), ?_⟩
            · rw [content]
              simp [lineGap, spaces]
            · simpa [Spelling.blockTokens] using hWhole

end Block

end Yaml

end Transclusion

------------------------------------------------------------
-- Characters
------------------------------------------------------------

namespace Transclusion

namespace Yaml

namespace Block

/- Spaces may occur. -/
theorem isAllowedText_spaces
    (count : Nat) :
    IsAllowedText (spaces count) := by
  exact List.forall_mem_replicate.mpr (Or.inr rfl)

/- What is written for a value without parts may occur. -/
theorem isAllowedText_leaf
    (indent : Nat)
    (value : Value) :
    IsAllowedText (leaf indent value) := by
  have hLine {text : List Char} (hText : IsAllowedText text) :
      IsAllowedText (text ++ ['\n']) :=
    List.forall_mem_append.mpr
      ⟨hText, List.forall_mem_singleton.mpr rfl⟩
  have hWord {text : List Char} (hText : IsPlainWord text) :
      IsAllowedText (text ++ ['\n']) :=
    hLine fun c hMem =>
      isAllowed_of_isPlainChar (hText.chars c hMem)
  cases value with
  | null => exact hWord isPlainWord_nullText
  | bool b => exact hWord (isPlainWord_boolText b)
  | number n =>
      exact
        hWord
          (isPlainWord_numberText spelling_isFaithful.plus n)
  | string s => exact isAllowedText_writtenScalar _ _
  | array items =>
      have hBrackets : IsAllowedText "[]".toList :=
        List.forall_iff_forall_mem.mp (by decide)
      exact hLine hBrackets
  | object fields =>
      have hBraces : IsAllowedText "\x7b\x7d".toList :=
        List.forall_iff_forall_mem.mp (by decide)
      exact hLine hBraces

/- What is written for a key may occur. -/
theorem isAllowedText_keyPart
    (indent : Nat)
    (key : String) :
    IsAllowedText (keyPart indent key) := by
  have hScalar :=
    isAllowedText_writtenScalar (indent + 2) key.toList
  unfold keyPart IsAllowedText
  split
  · rw [List.forall_mem_append, List.forall_mem_singleton]
    exact
      ⟨fun c hMem => hScalar c (List.dropLast_subset _ hMem),
        rfl⟩
  · simp only [List.cons_append, List.forall_mem_cons,
      List.forall_mem_append]
    exact
      ⟨rfl, rfl, ⟨hScalar, isAllowedText_spaces indent⟩, rfl,
        List.forall_mem_nil _⟩

/- What is written for items may occur. -/
theorem isAllowedText_items
    (indent : Nat)
    {items : List Value}
    (hItems :
      ∀ item ∈ items,
        IsAllowedText (content false indent item)) :
    IsAllowedText (Block.items indent items) := by
  induction items with
  | nil => exact List.forall_mem_nil _
  | cons item items ih =>
      rw [List.forall_mem_cons] at hItems
      unfold IsAllowedText
      rw [Block.items]
      simp only [List.append_assoc, List.cons_append,
        List.forall_mem_cons, List.forall_mem_append]
      exact
        ⟨isAllowedText_spaces indent, rfl, hItems.1,
          ih hItems.2⟩

/- What is written for fields may occur. -/
theorem isAllowedText_fields
    (indent : Nat)
    {fields : Fields}
    (hFields :
      ∀ field ∈ fields, ∀ simple,
        IsAllowedText (content simple indent field.2)) :
    IsAllowedText (Block.fields indent fields) := by
  induction fields with
  | nil => exact List.forall_mem_nil _
  | cons field fields ih =>
      rcases field with ⟨key, value⟩
      rw [List.forall_mem_cons] at hFields
      unfold IsAllowedText
      rw [Block.fields]
      simp only [List.append_assoc, List.forall_mem_append]
      exact
        ⟨isAllowedText_spaces indent,
          isAllowedText_keyPart indent key, hFields.1 _,
          ih hFields.2⟩

/- What is written for a value may occur. -/
theorem isAllowedText_content
    (value : Value)
    (simple : Bool)
    (indent : Nat) :
    IsAllowedText (content simple indent value) := by
  have hLeaf {value : Value} (hLeaf : IsLeaf value)
      (simple : Bool) (indent : Nat) :
      IsAllowedText (content simple indent value) := by
    rw [content_leaf hLeaf]
    exact
      List.forall_mem_cons.mpr
        ⟨rfl, isAllowedText_leaf indent value⟩
  have hGap (simple : Bool) (inner : Nat) :
      IsAllowedText
        (if simple then '\n' :: spaces inner else [' ']) := by
    split
    · exact
        List.forall_mem_cons.mpr
          ⟨rfl, isAllowedText_spaces inner⟩
    · exact List.forall_mem_singleton.mpr rfl
  induction value using Value.induction
    generalizing simple indent with
  | plain value hPlain =>
      apply hLeaf
      cases value with
      | null => trivial
      | bool b => trivial
      | number n => trivial
      | string s => trivial
      | array items => cases hPlain
      | object fields => cases hPlain
  | array items ih =>
      cases items with
      | nil =>
          exact
            hLeaf (show IsLeaf (.array []) from trivial) simple
              indent
      | cons item rest =>
          let inner := if simple then indent else indent + 2
          have hItems :=
            isAllowedText_items inner
              fun part hMem => ih part hMem false inner
          rw [Block.items] at hItems
          simp only [List.append_assoc, List.cons_append,
            IsAllowedText, List.forall_mem_cons,
            List.forall_mem_append] at hItems
          unfold IsAllowedText
          rw [content]
          simp only [List.append_assoc, List.cons_append,
            List.forall_mem_cons, List.forall_mem_append]
          exact ⟨hGap simple inner, hItems.2⟩
  | object fields ih =>
      cases fields with
      | nil =>
          exact
            hLeaf (show IsLeaf (.object []) from trivial) simple
              indent
      | cons field rest =>
          rcases field with ⟨key, value⟩
          have hFields :=
            isAllowedText_fields (indent + 2)
              fun part hMem simple =>
                ih part hMem simple (indent + 2)
          rw [Block.fields] at hFields
          simp only [List.append_assoc, IsAllowedText,
            List.forall_mem_append] at hFields
          unfold IsAllowedText
          rw [content]
          simp only [List.append_assoc, List.forall_mem_append]
          exact ⟨hGap simple (indent + 2), hFields.2⟩

/- The text of a value has no fault. -/
theorem isAllowedText_root
    (value : Value) :
    IsAllowedText (root value) := by
  rcases leaf_cases value with
    hLeaf | ⟨item, rest, rfl⟩ | ⟨key, inner, rest, rfl⟩
  · rw [root_leaf hLeaf]
    exact isAllowedText_leaf 0 value
  · exact
      isAllowedText_items 0 fun part _ =>
        isAllowedText_content part false 0
  · exact
      isAllowedText_fields 0 fun part _ simple =>
        isAllowedText_content part.2 simple 0

end Block

end Yaml

end Transclusion

------------------------------------------------------------
-- Texts
------------------------------------------------------------

namespace Transclusion

namespace Yaml

namespace Block

/- The end of a text. -/
theorem endsLine_nil :
    EndsLine 0 [] (-1) := by
  refine ⟨rfl, ?_, fun _ => rfl⟩
  intro c hMem
  cases hMem

/- The text of a value is read to its end. -/
theorem reads_root
    (size : Nat)
    (value : Value) :
    BlockReads size ⟨root value, 0, [], true⟩
      (spelling.blockTokens false value) ⟨[], -1, [], true⟩ := by
  have hNone (kind : TokenKind) :
      Opens kind 0 [] [kind] [0] :=
    .first fun _ hMem => by cases hMem
  rcases leaf_cases value with
    hLeaf | ⟨item, rest, rfl⟩ | ⟨key, inner, rest, rfl⟩
  · have hReads :
        BlockReads size
          ⟨leaf 0 value ++ (List.replicate 0 ' ' ++ []), 0, [],
            true⟩
          (spelling.blockTokens false value)
          ⟨[], -1, [], true⟩ := by
      apply reads_leaf hLeaf _ endsLine_nil _ _ false
      · decide
      · exact Int.le_refl _
      · rfl
    rw [root_leaf hLeaf]
    simpa using hReads
  · have hEntries :=
      reads_sequence size
        (fun (part : Value) (_ : part ∈ item :: rest) =>
          readsContent part)
        (hNone .blockSequenceStart)
    have hWhole :=
      (hEntries endsLine_nil (by decide)).trans
        (BlockReads.close
          (show (-1 : Int) < (0 : Nat) by decide))
    simpa [root, Block.items, spaces, Spelling.blockTokens]
      using hWhole
  · have hEntries :=
      reads_mapping size
        (fun (field : String × Value)
            (_ : field ∈ (key, inner) :: rest) =>
          readsContent field.2)
        (hNone .blockMappingStart)
    have hWhole :=
      (hEntries endsLine_nil (by decide)).trans
        (BlockReads.close
          (show (-1 : Int) < (0 : Nat) by decide))
    simpa [root, Block.fields, spaces, Spelling.blockTokens]
      using hWhole

/- The text of a value is not empty. -/
theorem root_ne_nil
    (value : Value) :
    root value ≠ [] := by
  rcases leaf_cases value with
    hLeaf | ⟨item, rest, rfl⟩ | ⟨key, inner, rest, rfl⟩
  · rw [root_leaf hLeaf]
    exact leaf_ne_nil 0 value
  · exact List.cons_ne_nil _ _
  · rw [root, Block.fields]
    simp [(startsToken_keyPart 0 key []).1]

/- The tokens of the text of a value. -/
theorem tokens_root
    (value : Value) :
    (TokenStream.ofText (root value)).tokens.map Token.kind =
      .streamStart :: spelling.blockTokens false value ++
        [.streamEnd] :=
  (reads_root _ value).tokens_ofText (root_ne_nil value)
    (isAllowedText_root value)

end Block

end Yaml

end Transclusion

------------------------------------------------------------
-- Blank Texts
------------------------------------------------------------

namespace Transclusion

/-
  Whether a value is a string of blanks that is written
  without quotes, and so looks like nothing at all.
-/
def Value.looksBlank : Value → Bool
  | .string s =>
      Text.IsBlankText s &&
        Yaml.writtenStyle s.toList == .plain
  | _ => false

namespace Yaml

namespace Block

/- Visible characters are not blank. -/
theorem isBlank_of_isVisible
    {c : Char}
    (hVisible : IsVisible c) :
    Text.isBlank c = false := by
  unfold IsVisible at hVisible
  unfold Text.isBlank
  simp only [Bool.or_eq_false_iff, Bool.and_eq_false_iff,
    decide_eq_false_iff_not, beq_eq_false_iff_ne]
  omega

/- Most values are written with a character that is not. -/
theorem exists_isVisible
    (value : Value)
    (hText :
      ∀ s, value = .string s →
        writtenStyle s.toList ≠ .plain) :
    ∃ c ∈ root value, IsVisible c := by
  have hWord {text : List Char} (hWord : IsPlainWord text) :
      ∃ c ∈ text ++ ['\n'], IsVisible c := by
    rcases hWord.first with ⟨c, more, hText, _⟩
    have hMem : c ∈ text := by
      rw [hText]
      exact List.mem_cons_self
    exact
      ⟨c, List.mem_append_left _ hMem,
        toNat_of_isPlainChar (hWord.chars c hMem)⟩
  match value with
  | .null => exact hWord isPlainWord_nullText
  | .bool b => exact hWord (isPlainWord_boolText b)
  | .number n =>
      exact
        hWord
          (isPlainWord_numberText spelling_isFaithful.plus n)
  | .string s =>
      have hPlain := hText s rfl
      have hWritten := written_writtenScalar 2 s.toList
      change ∃ c ∈ writtenScalar 2 s.toList, IsVisible c
      generalize writtenStyle s.toList = style,
        writtenScalar 2 s.toList = written
        at hPlain hWritten
      cases hWritten with
      | plain hShown hReads => exact absurd rfl hPlain
      | single hQuotable =>
          exact ⟨'\'', List.mem_cons_self, by decide⟩
      | double =>
          exact ⟨'"', List.mem_cons_self, by decide⟩
      | literal hFeed hWritable =>
          rw [literal, literalHeader_eq]
          exact ⟨'|', List.mem_cons_self, by decide⟩
  | .array [] => exact ⟨'[', List.mem_cons_self, by decide⟩
  | .array (item :: rest) =>
      exact ⟨'-', List.mem_cons_self, by decide⟩
  | .object [] => exact ⟨'{', List.mem_cons_self, by decide⟩
  | .object ((key, inner) :: rest) =>
      refine ⟨':', ?_, by decide⟩
      rw [root, Block.fields]
      unfold keyPart
      split <;> simp

end Block

end Yaml

/- Only such strings are written as blank texts. -/
theorem Value.isBlankText_yaml_iff
    (value : Value) :
    Text.IsBlankText value.yaml ↔ value.looksBlank = true := by
  unfold Value.yaml Text.IsBlankText
  rw [String.toList_ofList]
  by_cases hPlain :
      ∃ s, value = .string s ∧
        Yaml.writtenStyle s.toList = .plain
  · rcases hPlain with ⟨s, rfl, hStyle⟩
    have hRoot :
        Yaml.Block.root (.string s) = s.toList ++ ['\n'] := by
      change Yaml.writtenScalar 2 s.toList = _
      unfold Yaml.writtenScalar
      rw [hStyle]
    rw [hRoot, List.forall_mem_append]
    simp only [
      Value.looksBlank,
      hStyle,
      beq_self_eq_true,
      Bool.and_true,
      decide_eq_true_iff
    ]
    exact
      and_iff_left
        (List.forall_mem_singleton.mpr
          (show Text.isBlank '\n' = true from rfl))
  · have hText :
        ∀ s, value = .string s →
          Yaml.writtenStyle s.toList ≠ .plain :=
      fun s hEq hStyle => hPlain ⟨s, hEq, hStyle⟩
    rcases Yaml.Block.exists_isVisible value hText with
      ⟨c, hMem, hVisible⟩
    have hNot : Text.isBlank c = false :=
      Yaml.Block.isBlank_of_isVisible hVisible
    constructor
    · intro hBlank
      rw [hBlank c hMem] at hNot
      cases hNot
    · intro hLooks
      cases value with
      | string s =>
          unfold Value.looksBlank at hLooks
          rw [Bool.and_eq_true_iff, beq_iff_eq] at hLooks
          exact absurd hLooks.2 (hText s rfl)
      | null => cases hLooks
      | bool b => cases hLooks
      | number n => cases hLooks
      | array items => cases hLooks
      | object fields => cases hLooks

/-
  A value that is nested no deeper than texts may be is read
  from its YAML text, unless the text looks blank.
-/
theorem parseText_yaml_of_nesting
    {value : Value}
    (hDepth : value.nesting ≤ Yaml.Node.maxDepth)
    (hKeys : value.hasDistinctKeys = true) :
    parseText value.yaml =
      .ok (if value.looksBlank then .null else value) := by
  cases hLooks : value.looksBlank with
  | true =>
      unfold parseText
      rw [if_pos (value.isBlankText_yaml_iff.mpr hLooks)]
      rfl
  | false =>
      have hShown : ¬ Text.IsBlankText value.yaml := by
        rw [value.isBlankText_yaml_iff, hLooks]
        exact Bool.false_ne_true
      apply
        Yaml.Block.spelling_isFaithful.parseText_of_events
          hDepth hKeys hShown
      unfold Value.yaml Yaml.EventStream.ofText
      rw [String.toList_ofList]
      exact
        Yaml.Spelling.events_of_blockTokens
          (Yaml.Block.tokens_root value)

end Transclusion
