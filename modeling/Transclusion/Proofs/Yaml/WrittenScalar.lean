import Mathlib.Data.String.Basic
import Transclusion.Proofs.Yaml.WrittenText
import Transclusion.Value.Yaml

/-
  Texts as scalars of block collections, and as their keys.

  Key definitions include:
    * `Transclusion.Yaml.Written`

  Key theorems include:
    * `Transclusion.Yaml.BlockReads.scalar`
    * `Transclusion.Yaml.BlockReads.key`

  The style of a text says that the text can be written in
  that style.  A simple key is short enough to stand in front
  of its colon even if every character of it is escaped.
-/

------------------------------------------------------------
-- Styles
------------------------------------------------------------

namespace Transclusion

namespace Yaml

/- How a text can be written, with its line end. -/
inductive Written
    (level : Nat)
    (text : List Char) : ScalarStyle → List Char → Prop where
  | plain
      (hShown : IsShown text)
      (hReads : readsAsText text = true) :
      Written level text .plain (text ++ ['\n'])
  | single
      (hQuotable : IsQuotable text) :
      Written level text .singleQuoted
        (singleQuoted level text ++ ['\n'])
  | double :
      Written level text .doubleQuoted
        ('"' :: (text.flatMap escapedChar ++ ['"']) ++ ['\n'])
  | literal
      (hFeed : '\n' ∈ text)
      (hWritable : ∀ c ∈ text, isWritable c = true) :
      Written level text .literal
        (literal level text ++ literalEnd text)

/- A literal block ends with its line. -/
theorem literal_lineEnd
    (level : Nat)
    (text : List Char) :
    (if text.getLast?.any isBreak then literal level text
      else literal level text ++ ['\n']) =
      literal level text ++ literalEnd text := by
  unfold literalEnd
  split
  · exact (List.append_nil _).symm
  · rfl

/- A text is written in its style. -/
theorem written_writtenScalar
    (level : Nat)
    (text : List Char) :
    Written level text (writtenStyle text)
      (writtenScalar level text) := by
  unfold writtenScalar writtenStyle
  dsimp only
  split
  · rename_i hFeed
    rw [List.contains_iff_mem] at hFeed
    split
    · rename_i hBlock
      unfold Traits.allowBlock Traits.ofText at hBlock
      simp only [Bool.not_eq_true', Bool.or_eq_false_iff,
        Bool.not_eq_false', List.all_eq_true] at hBlock
      rw [literal_lineEnd]
      exact .literal hFeed hBlock.1.1
    · exact .double
  · rename_i hFeed
    rw [List.contains_iff_mem] at hFeed
    split
    · rename_i hPlain
      rw [Bool.and_eq_true_iff] at hPlain
      refine
        .plain (isShown_of_allowPlain ?_ hPlain.2) hPlain.1
      rintro rfl
      cases hPlain.1
    split
    · rename_i _ hSingle
      unfold Traits.allowSingle Traits.ofText at hSingle
      simp only [Bool.not_eq_true', Bool.or_eq_false_iff,
        Bool.not_eq_false', List.all_eq_true] at hSingle
      exact
        .single
          ⟨hSingle.1.1, hFeed, hSingle.1.2, hSingle.2⟩
    · exact .double

/- An integer is no text. -/
theorem Scalar.integer?_ne_string
    {text read : List Char} :
    Scalar.integer? text ≠ some (.string read) := by
  intro hEq
  rcases Option.bind_eq_some_iff.mp hEq with ⟨n, _, hOf⟩
  unfold Scalar.ofInteger? at hOf
  split at hOf
  · cases hOf
  · split at hOf
    · cases hOf
    · cases hOf

/- What reads as a text reads as itself. -/
theorem ofPlain_of_readsAsText
    {text : List Char}
    (hReads : readsAsText text = true) :
    Scalar.ofPlain text = .string text := by
  unfold readsAsText at hReads
  split at hReads
  · rename_i read hRead
    rw [hRead]
    unfold Scalar.ofPlain at hRead
    split at hRead
    · cases hRead
    split at hRead
    · cases hRead
    split at hRead
    · rename_i hInteger
      rw [hRead] at hInteger
      exact absurd hInteger Scalar.integer?_ne_string
    split at hRead
    · rw [← hRead]
    split at hRead
    · cases hRead
    · rw [← hRead]
  · cases hReads

end Yaml

end Transclusion

------------------------------------------------------------
-- Scalars
------------------------------------------------------------

namespace Transclusion

namespace Yaml

variable {text rest : List Char}

/- A text in single quotes, with what stands between them. -/
theorem IsQuotable.exists_singleQuoted
    {level : Nat}
    (hQuotable : IsQuotable text)
    (hLevel : level ≠ 0) :
    ∃ content,
      singleQuoted level text = '\'' :: (content ++ ['\'']) ∧
        QuotedText true text content := by
  rcases hQuotable.exists_quoted hLevel with
    ⟨content, hContent, hText⟩
  refine ⟨content, ?_, hText⟩
  rw [← hContent]
  rfl

/- A text is a scalar in front of what is indented less. -/
theorem BlockReads.scalar
    {size count level : Nat}
    {levels : List Nat}
    {column columnAfter : Int}
    {allowed : Bool}
    (hInside : levelOf levels < column)
    (hEnd : EndsLine count rest columnAfter)
    (hOuter : columnAfter ≤ levelOf levels)
    (hLevel : level = (max (levelOf levels) 0).toNat + 2) :
    BlockReads size
      ⟨writtenScalar level text ++
          (List.replicate count ' ' ++ rest),
        column, levels, allowed⟩
      [.scalar text (writtenStyle text)]
      ⟨rest, columnAfter, levels, true⟩ := by
  have hGap (written : List Char) :
      written ++ ['\n'] ++ (List.replicate count ' ' ++ rest) =
        written ++ (lineGap count ++ rest) := by
    rw [List.append_assoc]
    rfl
  have hWritten := written_writtenScalar level text
  generalize writtenStyle text = style,
    writtenScalar level text = written at hWritten
  cases hWritten with
  | plain hShown hReads =>
      rw [hGap]
      exact
        .plain hShown.plainText
          (hShown.beginsPlain (by
            intro c hMem
            cases hMem
            decide))
          hInside hEnd hOuter
  | single hQuotable =>
      rcases hQuotable.exists_singleQuoted
          (show level ≠ 0 by omega) with
        ⟨content, hContent, hText⟩
      simp only [hGap, hContent, List.cons_append,
        List.append_assoc]
      exact .quoted true hText hInside hEnd
  | double =>
      simp only [hGap, List.cons_append, List.append_assoc]
      exact
        .quoted false (quotedText_escaped text) hInside hEnd
  | literal hFeed hWritable =>
      exact
        .literal
          (fun c hMem =>
            isLiteralChar_of_isWritable (hWritable c hMem))
          (List.ne_nil_of_mem hFeed) hInside hEnd hOuter hLevel

end Yaml

end Transclusion

------------------------------------------------------------
-- Keys
------------------------------------------------------------

namespace Transclusion

namespace Yaml

/- The bytes of a text are those of its characters. -/
theorem byteCount_flatMap_le
    {written : Char → List Char}
    {factor : Nat}
    (hChars :
      ∀ c, byteCount (written c) ≤ factor * c.utf8Size)
    (text : List Char) :
    byteCount (text.flatMap written) ≤
      factor * byteCount text := by
  induction text with
  | nil => exact Nat.zero_le _
  | cons c rest ih =>
      have hChar := hChars c
      rw [List.flatMap_cons, byteCount_append, byteCount_cons,
        Nat.mul_add]
      omega

/- A doubled quote takes up no more than two bytes. -/
theorem byteCount_doubledChar_le
    (c : Char) :
    byteCount (doubledChar c) ≤ 4 * c.utf8Size := by
  unfold doubledChar
  split
  · rename_i hQuote
    rw [hQuote]
    decide
  · rw [byteCount_cons]
    change _ + 0 ≤ _
    omega

/- The size of a text as a string. -/
theorem utf8ByteSize_eq
    (s : String) :
    s.utf8ByteSize = byteCount s.toList := by
  have hList (text : List Char) :
      (String.ofList text).utf8ByteSize = byteCount text := by
    rw [String.utf8ByteSize_ofList]
    induction text with
    | nil => rfl
    | cons c rest ih =>
        rw [String.utf8Len_cons, byteCount_cons, ih,
          Nat.add_comm]
  rw [← hList, String.ofList_toList]

/- A simple key stays within a line and is short. -/
theorem of_isSimpleKey
    {key : String}
    (hSimple : Block.isSimpleKey key = true) :
    (∀ c ∈ key.toList, isBreak c = false) ∧
      byteCount key.toList ≤ 128 := by
  unfold Block.isSimpleKey at hSimple
  rw [Bool.and_eq_true_iff, Bool.not_eq_true',
    List.any_eq_false, decide_eq_true_iff,
    utf8ByteSize_eq] at hSimple
  exact
    ⟨fun c hMem => Bool.eq_false_iff.mpr (hSimple.1 c hMem),
      hSimple.2⟩

/- A text within a line is not changed by an indentation. -/
theorem singleQuoted_of_line
    {text : List Char}
    (hLine : ∀ c ∈ text, isBreak c = false)
    (level : Nat) :
    singleQuoted level text =
      '\'' :: (text.flatMap doubledChar ++ ['\'']) := by
  have hQuoted :
      indentLines level false
          (text.flatMap doubledChar ++ ['\'']) =
        text.flatMap doubledChar ++ ['\''] :=
    indentLines_append (isBreak_of_mem_doubled hLine)
  exact congrArg ('\'' :: ·) hQuoted

/- A simple key begins a token. -/
theorem startsToken_key
    {key : String}
    (hSimple : Block.isSimpleKey key = true)
    (level : Nat)
    (rest : List Char) :
    StartsToken
      ((writtenScalar level key.toList).dropLast ++
        ':' :: rest) := by
  have hLine := (of_isSimpleKey hSimple).1
  have hWritten := written_writtenScalar level key.toList
  generalize writtenStyle key.toList = style,
    writtenScalar level key.toList = written at hWritten
  cases hWritten with
  | plain hShown hReads =>
      rw [List.dropLast_concat]
      exact
        (hShown.beginsPlain (by
          intro c hMem
          cases hMem
          decide)).begins.starts
  | single hQuotable =>
      rw [List.dropLast_concat, singleQuoted_of_line hLine]
      exact (beginsToken_indicator (by decide) _).starts
  | double =>
      rw [List.dropLast_concat]
      exact (beginsToken_indicator (by decide) _).starts
  | literal hFeed hWritable =>
      have hNone := hLine '\n' hFeed
      cases hNone

/- A simple key with its colon. -/
theorem BlockReads.key
    {size level indent column : Nat}
    {key : String}
    {written gap rest : List Char}
    {starts : List TokenKind}
    {levels levelsAfter : List Nat}
    {allowed : Bool}
    (hSimple : Block.isSimpleKey key = true)
    (hWritten :
      written = (writtenScalar level key.toList).dropLast)
    (hOpens :
      Opens .blockMappingStart indent levels starts levelsAfter)
    (hGap : KeyGap (indent + written.length) gap column allowed)
    (hRest : rest ≠ []) :
    BlockReads size
      ⟨written ++ ':' :: (gap ++ rest), (indent : Int), levels,
        true⟩
      (starts ++
        [.key, .scalar key.toList (writtenStyle key.toList),
          .value])
      ⟨rest, (column : Int), levelsAfter, allowed⟩ := by
  rcases of_isSimpleKey hSimple with ⟨hLine, hShort⟩
  have hScalar := written_writtenScalar level key.toList
  generalize writtenStyle key.toList = style,
    writtenScalar level key.toList = scalar
    at hScalar hWritten
  cases hScalar with
  | plain hShown hReads =>
      rw [List.dropLast_concat] at hWritten
      subst hWritten
      exact
        .plainKey hShown.plainText
          (hShown.beginsPlain (by
            intro c hMem
            cases hMem
            decide))
          (by omega) hOpens hGap hRest
  | single hQuotable =>
      rw [List.dropLast_concat, singleQuoted_of_line hLine]
        at hWritten
      have hBytes :=
        byteCount_flatMap_le byteCount_doubledChar_le
          key.toList
      exact
        .quotedKey true
          (IsQuotable.quotedText_line hQuotable.writable hLine)
          (isBreak_of_mem_doubled hLine) (by omega) hWritten
          hOpens hGap hRest
  | double =>
      rw [List.dropLast_concat] at hWritten
      have hBytes :=
        byteCount_flatMap_le
          (fun c => (escapedChar_escaped c).byteCount_le)
          key.toList
      exact
        .quotedKey false (quotedText_escaped key.toList)
          isBreak_of_mem_escaped (by omega) hWritten hOpens
          hGap hRest
  | literal hFeed hWritable =>
      have hNone := hLine '\n' hFeed
      cases hNone

end Yaml

end Transclusion

------------------------------------------------------------
-- Characters
------------------------------------------------------------

namespace Transclusion

namespace Yaml

variable {text : List Char}

/- An indentation adds nothing but spaces. -/
theorem mem_indentLines
    {indent : Nat}
    {broken : Bool}
    {c : Char}
    (hMem : c ∈ indentLines indent broken text) :
    c = ' ' ∨ c ∈ text := by
  induction text generalizing broken with
  | nil => cases hMem
  | cons d rest ih =>
      rw [indentLines] at hMem
      split at hMem
      · rw [List.mem_cons] at hMem
        rcases hMem with rfl | hMem
        · exact Or.inr List.mem_cons_self
        · exact (ih hMem).imp_right (List.mem_cons_of_mem d)
      · rw [List.mem_append, List.mem_cons] at hMem
        rcases hMem with hMem | rfl | hMem
        · split at hMem
          · exact Or.inl (List.eq_of_mem_replicate hMem)
          · cases hMem
        · exact Or.inr List.mem_cons_self
        · exact (ih hMem).imp_right (List.mem_cons_of_mem d)

/- Doubling quotes adds no other character. -/
theorem mem_of_mem_doubledChar
    {c d : Char}
    (hMem : c ∈ doubledChar d) :
    c = d := by
  unfold doubledChar at hMem
  split at hMem
  · rename_i hQuote
    rw [hQuote]
    simpa using hMem
  · exact List.mem_singleton.mp hMem

/- What may occur may occur with an indentation. -/
theorem isAllowedText_indentLines
    (level : Nat)
    (broken : Bool)
    (hText : IsAllowedText text) :
    IsAllowedText (indentLines level broken text) := by
  intro c hMem
  rcases mem_indentLines hMem with rfl | hMem
  · rfl
  · exact hText c hMem

/- The header of a literal block may occur. -/
theorem isAllowedText_literalHeader
    (text : List Char) :
    IsAllowedText (literalHeader text) := by
  have hIndicator :
      ∀ chomping : Chomping,
        IsAllowedText chomping.indicator
    | .strip => List.forall_mem_singleton.mpr rfl
    | .clip => List.forall_mem_nil _
    | .keep => List.forall_mem_singleton.mpr rfl
  rw [literalHeader_eq]
  refine
    List.forall_mem_cons.mpr
      ⟨rfl, List.forall_mem_append.mpr ⟨?_, hIndicator _⟩⟩
  split
  · exact List.forall_mem_singleton.mpr rfl
  · exact List.forall_mem_nil _

/- The line end of a literal block may occur. -/
theorem isAllowedText_literalEnd
    (text : List Char) :
    IsAllowedText (literalEnd text) := by
  unfold literalEnd
  split
  · exact List.forall_mem_nil _
  · exact List.forall_mem_singleton.mpr rfl

/- What is written for a text may occur. -/
theorem isAllowedText_writtenScalar
    (level : Nat)
    (text : List Char) :
    IsAllowedText (writtenScalar level text) := by
  have hLine {written : List Char}
      (hWritten : IsAllowedText written) :
      IsAllowedText (written ++ ['\n']) :=
    List.forall_mem_append.mpr
      ⟨hWritten, List.forall_mem_singleton.mpr rfl⟩
  have hQuoted {quote : Char} {content : List Char}
      (hQuote : isAllowed quote = true)
      (hContent : IsAllowedText content) :
      IsAllowedText (quote :: (content ++ [quote])) :=
    List.forall_mem_cons.mpr
      ⟨hQuote,
        List.forall_mem_append.mpr
          ⟨hContent, List.forall_mem_singleton.mpr hQuote⟩⟩
  have hWritten := written_writtenScalar level text
  generalize writtenStyle text = style,
    writtenScalar level text = written at hWritten
  cases hWritten with
  | plain hShown hReads =>
      exact
        hLine fun c hMem =>
          isAllowed_of_isWritable (hShown.writable c hMem)
  | single hQuotable =>
      have hContent :
          IsAllowedText
            (text.flatMap doubledChar ++ ['\'']) := by
        refine
          List.forall_mem_append.mpr
            ⟨fun c hMem => ?_, List.forall_mem_singleton.mpr rfl⟩
        rcases List.mem_flatMap.mp hMem with
          ⟨d, hChar, hDoubled⟩
        rw [mem_of_mem_doubledChar hDoubled]
        exact isAllowed_of_isWritable (hQuotable.writable d hChar)
      exact
        hLine
          (List.forall_mem_cons.mpr
            ⟨rfl, isAllowedText_indentLines level false hContent⟩)
  | double =>
      refine hLine (hQuoted rfl fun c hMem => ?_)
      rcases List.mem_flatMap.mp hMem with ⟨d, _, hEscaped⟩
      exact (escapedChar_escaped d).isAllowed_of_mem c hEscaped
  | literal hFeed hWritable =>
      have hText : IsAllowedText text :=
        fun c hMem => isAllowed_of_isWritable (hWritable c hMem)
      unfold literal
      exact
        List.forall_mem_append.mpr
          ⟨List.forall_mem_append.mpr
              ⟨isAllowedText_literalHeader text,
                List.forall_mem_cons.mpr
                  ⟨rfl,
                    isAllowedText_indentLines level true hText⟩⟩,
            isAllowedText_literalEnd text⟩

end Yaml

end Transclusion
