import Mathlib.Data.List.Nodup
import Transclusion.Proofs.Document.Window
import Transclusion.Proofs.Yaml.ReachTree

/-
  The marked line of a snippet.

  Key definitions include:
    * `Transclusion.strayBreaks`

  Key theorems include:
    * `Transclusion.linesFrom_le_linesOf`
    * `Transclusion.bounds_of_parseText`
    * `Transclusion.ParseError.not_forall_marked`
    * `Transclusion.ParseError.marked_of_parseText`

  The line of an error is moved into the text before a window
  is put around it, but it is marked where it was.  A reader
  can fail right behind the last line, and then nothing is
  marked.
-/

------------------------------------------------------------
-- Texts That Are Rejected
------------------------------------------------------------

namespace Transclusion

variable {text : String}
variable {error : ParseError}

/- The error of a text keeps the text, which is not empty. -/
theorem source_of_parseText
    (hError : parseText text = .error error) :
    error.source = text ∧ text ≠ "" := by
  unfold parseText at hError
  split at hError
  · cases hError
  · rename_i hBlank
    have hSome : text ≠ "" := by
      rintro rfl
      apply hBlank
      intro c hMem
      cases hMem
    refine ⟨?_, hSome⟩
    split at hError
    · cases hError
      rfl
    · split at hError
      · cases hError
      · cases hError
        rfl

/- A line that is known is where the reader found a fault. -/
theorem exists_mark_of_parseText
    {line : Nat}
    (hError : parseText text = .error error)
    (hLine : error.line = some line) :
    ∃ problem mark,
      Yaml.Node.ofText text = .error problem ∧
        problem.mark? = some mark ∧ line = mark.line + 1 := by
  unfold parseText at hError
  split at hError
  · cases hError
  · split at hError
    · rename_i problem hRead
      cases hError
      unfold ParseError.line ParseError.ofReadError at hLine
      rw [Option.map_map] at hLine
      rcases Option.map_eq_some_iff.mp hLine with
        ⟨mark, hMark, hNumber⟩
      exact ⟨problem, mark, hRead, hMark, hNumber.symm⟩
    · split at hError
      · cases hError
      · cases hError
        cases hLine

end Transclusion

------------------------------------------------------------
-- Lines of Errors
------------------------------------------------------------

namespace Transclusion

/-
  The breaks that end a line for the reader of documents, but
  no line of the text: all but line feeds.
-/
def strayBreaks : List Char → Nat
  | [] => 0
  | c :: rest =>
      if c ≠ '\n' ∧ Yaml.endsLine c rest = true then
        strayBreaks rest + 1
      else strayBreaks rest

/-
  A character that is no line feed begins a line or goes on
  with the first one, or it is a stray break.
-/
theorem linesFrom_cons_le
    {c : Char}
    {rest : List Char}
    (hFeed : c ≠ '\n')
    (hRest : ∀ started,
      Yaml.linesFrom started rest ≤
        max (if started then 1 else 0)
            (Text.linesOf rest).length +
          strayBreaks rest)
    (started : Bool) :
    Yaml.linesFrom started (c :: rest) ≤
      max 1 (Text.linesOf rest).length +
        strayBreaks (c :: rest) := by
  have hFalse := hRest false
  have hTrue := hRest true
  simp only [if_true, Bool.false_eq_true, if_false]
    at hFalse hTrue
  by_cases hEnds : Yaml.endsLine c rest = true
  · rw [Yaml.linesFrom, if_pos hEnds, strayBreaks,
      if_pos ⟨hFeed, hEnds⟩]
    omega
  · have hNone :
        ¬ (c ≠ '\n' ∧ Yaml.endsLine c rest = true) :=
      fun hBoth => hEnds hBoth.2
    rw [Yaml.linesFrom, if_neg hEnds, strayBreaks,
      if_neg hNone]
    exact hTrue

/-
  The reader counts the lines of a text, and one more at each
  stray break.
-/
theorem linesFrom_le_linesOf
    (started : Bool)
    (text : List Char) :
    Yaml.linesFrom started text ≤
      max (if started then 1 else 0)
          (Text.linesOf text).length +
        strayBreaks text := by
  fun_induction Text.linesOf text generalizing started with
  | case1 =>
      cases started with
      | false => exact Nat.zero_le _
      | true => exact Nat.le_refl 1
  | case2 rest ih =>
      have hRest := ih false
      simp only [Bool.false_eq_true, if_false] at hRest
      change Yaml.linesFrom false rest + 1 ≤ _
      have hStray :
          strayBreaks ('\n' :: rest) = strayBreaks rest :=
        if_neg fun hBoth => hBoth.1 rfl
      rw [hStray, List.length_cons]
      omega
  | case3 rest ih =>
      have hRest := ih false
      simp only [Bool.false_eq_true, if_false] at hRest
      change Yaml.linesFrom false rest + 1 ≤ _
      have hStray :
          strayBreaks ('\r' :: '\n' :: rest) =
            strayBreaks rest :=
        rfl
      rw [hStray, List.length_cons]
      omega
  | case4 c rest hFeed hReturn hNil ih =>
      have hStep := linesFrom_cons_le hFeed ih started
      rw [hNil] at hStep
      simp only [List.length_nil, List.length_singleton]
        at hStep ⊢
      omega
  | case5 c rest hFeed hReturn first more hMore ih =>
      have hStep := linesFrom_cons_le hFeed ih started
      rw [hMore] at hStep
      simp only [List.length_cons] at hStep ⊢
      omega

/-
  The line of an error is one of the text, or the one behind
  them, or further down for each stray break.
-/
theorem bounds_of_parseText
    {text : String}
    {error : ParseError}
    {line : Nat}
    (hError : parseText text = .error error)
    (hLine : error.line = some line) :
    1 ≤ line ∧
      line ≤
        (Text.lines text).length + 1 +
          strayBreaks text.toList := by
  rcases exists_mark_of_parseText hError hLine with
    ⟨problem, mark, hRead, hMark, rfl⟩
  have hWithin : mark.line ≤ Yaml.linesFrom false text.toList :=
    Yaml.Node.isWithin_of_ofText hRead mark hMark
  have hLines := linesFrom_le_linesOf false text.toList
  have hLength :
      (Text.lines text).length =
        (Text.linesOf text.toList).length :=
    List.length_map _
  rw [hLength]
  simp only [Bool.false_eq_true, if_false] at hLines
  omega

end Transclusion

------------------------------------------------------------
-- Marks
------------------------------------------------------------

namespace Transclusion

/- What has the key of one element is that element alone. -/
theorem filter_eq_singleton
    {α β : Type}
    {elements : List α}
    {key : α → β}
    {belongs : α → Bool}
    {one : α}
    (hNodup : (elements.map key).Nodup)
    (hOne : one ∈ elements)
    (hKey :
      ∀ other ∈ elements,
        belongs other = true ↔ key other = key one) :
    elements.filter belongs = [one] := by
  have hFiltered : (elements.filter belongs).Nodup :=
    hNodup.of_map.filter belongs
  apply List.perm_singleton.mp
  rw [List.perm_ext_iff_of_nodup hFiltered
    (List.nodup_singleton one)]
  intro other
  rw [List.mem_filter, List.mem_singleton]
  constructor
  · rintro ⟨hOther, hBelongs⟩
    exact List.inj_on_of_nodup_map hNodup hOther hOne
      ((hKey other hOther).mp hBelongs)
  · rintro rfl
    exact ⟨hOne, (hKey other hOne).mpr rfl⟩

namespace ParseError

variable {error : ParseError}
variable {window : Window}
variable {line : Nat}

/- A line of the text is marked alone if the window shows it. -/
theorem filter_marked_shownIn
    (hInside :
      window.IsInside (Text.lines error.source).length)
    (hLine : error.line = some line)
    (hFirst : window.first ≤ line)
    (hLast : line ≤ window.last) :
    ∃ offending,
      (Text.lines error.source)[line - 1]? =
          some offending ∧
        (error.shownIn window).filter ShownLine.marked =
          [⟨true, line, offending⟩] := by
  have hNumbers := map_number_shownIn hInside
  have hMem :
      line ∈
        (error.shownIn window).map ShownLine.number := by
    rw [hNumbers, List.mem_range'_1]
    omega
  rcases List.mem_map.mp hMem with ⟨one, hOne, hNumber⟩
  have hShown := of_mem_numbered (mem_numbered hOne)
  rw [hLine, hNumber] at hShown
  have hEq : one = ⟨true, line, one.line⟩ := by
    cases one
    simp_all
  refine ⟨one.line, hShown.1, ?_⟩
  rw [← hEq]
  have hNodup :
      ((error.shownIn window).map ShownLine.number).Nodup := by
    rw [hNumbers]
    exact List.nodup_range'
  apply filter_eq_singleton hNodup hOne
  intro other hOther
  rw [(of_mem_numbered (mem_numbered hOther)).2, hLine,
    hNumber, Option.some_inj, eq_comm]

/- Past the end of the text no line is marked. -/
theorem filter_marked_eq_nil
    (hLine : error.line = some line)
    (hPast : (Text.lines error.source).length < line)
    (window : Window) :
    (error.shownIn window).filter ShownLine.marked = [] := by
  rw [List.filter_eq_nil_iff]
  intro one hOne hMarked
  have hShown := of_mem_numbered (mem_numbered hOne)
  have hNumber := hShown.2.mp hMarked
  rw [hLine, Option.some_inj] at hNumber
  have hIn := (List.getElem?_eq_some_iff.mp hShown.1).1
  omega

end ParseError

end Transclusion

------------------------------------------------------------
-- Marks of Rejected Texts
------------------------------------------------------------

namespace Transclusion

namespace ParseError

/-
  A bracket that is not closed is missed behind the end of
  the text, where no line is left to be marked.
-/
theorem not_forall_marked :
    ¬ ∀ (text : String) (error : ParseError)
        (line context : Nat),
      parseText text = .error error →
        error.line = some line →
          ∃ (shown : List ShownLine) (column : Nat)
            (one : ShownLine),
            readSnippet? (error.snippet context) =
                some (shown.map fun one => (one, column)) ∧
              shown.filter ShownLine.marked = [one] ∧
              one.number =
                min line (Text.lines text).length := by
  intro hAll
  let error : ParseError :=
    { message :=
        "did not find expected node content at line 2 " ++
          "column 1, while parsing a flow node"
      location := some ⟨2, 1⟩
      source := "a: [" }
  have hError : parseText "a: [" = .error error := by
    decide +kernel
  rcases hAll "a: [" error 2 0 hError rfl with
    ⟨shown, column, one, hRead, hMarked, -⟩
  have hShown :
      readSnippet? (error.snippet 0) =
        some [(⟨false, 1, "a: ["⟩, 4)] := by
    decide +kernel
  rw [hShown, Option.some_inj] at hRead
  have hOne : one ∈ shown.filter ShownLine.marked := by
    rw [hMarked]
    exact List.mem_singleton_self one
  rw [List.mem_filter] at hOne
  have hMem :
      (one, column) ∈ shown.map fun one => (one, column) :=
    List.mem_map_of_mem hOne.1
  rw [← hRead, List.mem_singleton] at hMem
  cases hMem
  cases hOne.2

/-
  The snippet of a rejected text whose line is known.  It
  shows some lines.  The line of the error is marked, and no
  other, if the text has that line.  If the error is past the
  end of the text, no line is marked.  Without stray breaks
  it can only be right behind the last line.
-/
theorem marked_of_parseText
    {text : String}
    {error : ParseError}
    {line : Nat}
    (hError : parseText text = .error error)
    (hLine : error.line = some line)
    (context : Nat) :
    let lines := Text.lines text
    1 ≤ line ∧
      line ≤ lines.length + 1 + strayBreaks text.toList ∧
      ∃ (shown : List ShownLine) (column : Nat),
        readSnippet? (error.snippet context) =
            some (shown.map fun one => (one, column)) ∧
          shown ≠ [] ∧
          (line ≤ lines.length →
            ∃ offending,
              lines[line - 1]? = some offending ∧
                shown.filter ShownLine.marked =
                  [⟨true, line, offending⟩]) ∧
          (lines.length < line →
            shown.filter ShownLine.marked = []) := by
  intro lines
  rcases bounds_of_parseText hError hLine with ⟨hPos, hEnd⟩
  rcases source_of_parseText hError with ⟨rfl, hSource⟩
  have hCount : 1 ≤ lines.length := by
    apply List.length_pos_iff.mpr
    rwa [Ne, Text.lines_eq_nil_iff]
  let window :=
    Window.around error.line context lines.length
  have hInside : window.IsInside lines.length :=
    Window.isInside_around hCount error.line context
  refine
    ⟨hPos, hEnd, error.shownIn window, _,
      readSnippet?_snippet error context hSource, ?_, ?_, ?_⟩
  · intro hNil
    have hNumbers := map_number_shownIn hInside
    have hLength := congrArg List.length hNumbers
    rw [hNil, List.length_range'] at hLength
    have hFirst := hInside.first_le_last
    simp at hLength
    omega
  · intro hIn
    have hNear := Window.near_mem_around hCount line context
    have hWindow :
        window =
          Window.around (some line) context lines.length := by
      dsimp only [window]
      rw [hLine]
    rw [← hWindow] at hNear
    apply filter_marked_shownIn hInside hLine
    · omega
    · omega
  · intro hPast
    exact filter_marked_eq_nil hLine hPast window

/- A bracket that is missed at the next key. -/
theorem marked_of_parseText_bracket :
    let text := "a: 1\nb: [2, 3\nc: 4\n"
    let error : ParseError :=
      { message :=
          "did not find expected ',' or ']' at line 3 " ++
            "column 2, while parsing a flow sequence at " ++
            "line 2 column 4"
        location := some ⟨3, 2⟩
        source := text }
    parseText text = .error error ∧
      error.line = some 3 ∧
        ∃ (shown : List ShownLine) (column : Nat),
          readSnippet? (error.snippet 1) =
              some (shown.map fun one => (one, column)) ∧
            shown.filter ShownLine.marked =
              [⟨true, 3, "c: 4"⟩] := by
  intro text error
  have hError : parseText text = .error error := by
    decide +kernel
  have hLine : error.line = some 3 := rfl
  rcases marked_of_parseText hError hLine 1 with
    ⟨-, -, shown, column, hRead, -, hMarked, -⟩
  rcases hMarked (by decide) with ⟨offending, hText, hOne⟩
  have hThird :
      (Text.lines text)[3 - 1]? = some "c: 4" := by
    decide
  rw [hThird, Option.some_inj] at hText
  subst hText
  exact ⟨hError, hLine, shown, column, hRead, hOne⟩

end ParseError

end Transclusion
