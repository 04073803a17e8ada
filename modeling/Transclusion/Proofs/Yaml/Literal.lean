import Mathlib.Data.List.TakeWhile
import Transclusion.Proofs.Yaml.Cursor
import Transclusion.Yaml.Written

/-
  Literal blocks are read as their texts.

  Key definitions include:
    * `Transclusion.Yaml.LiteralLines`

  Key theorems include:
    * `Transclusion.Yaml.Scan.exists_blockLines`
    * `Transclusion.Yaml.Scan.exists_blockScalar`
-/

------------------------------------------------------------
-- Blank Lines
------------------------------------------------------------

namespace Transclusion

namespace Yaml

/- Whether a line break stands for itself. -/
def KeepsBreak
    (c : Char) : Prop :=
  isBreak c = true ∧ breakText c = [c]

/- Such a line break is no carriage return. -/
theorem KeepsBreak.ne_return
    {c : Char}
    (hBreak : KeepsBreak c) :
    c ≠ '\r' := by
  rintro rfl
  cases hBreak.2

/- A line does not begin with a gap behind its indentation. -/
def StartsLine
    (text : List Char) : Prop :=
  ∀ c ∈ text.head?, c ≠ '\t' ∧ isBreak c = false

namespace Scan

variable {rest breaks : List Char}
variable {size indent : Nat}
variable {mark start : Mark}

/- So many spaces are counted in front of a text. -/
theorem length_takeWhile_spaces
    (count : Nat)
    (rest : List Char) :
    ((List.replicate count ' ' ++ rest).takeWhile
        (· == ' ')).length =
      count + (rest.takeWhile (· == ' ')).length := by
  rw [List.takeWhile_append_of_pos, List.length_append,
    List.length_replicate]
  exact List.forall_mem_replicate.mpr (Or.inr rfl)

/- A break begins a line. -/
theorem column_step_break
    {c : Char}
    (hBreak : isBreak c = true)
    (mark : Mark) :
    (mark.step c).column = 0 := by
  unfold Mark.step
  rw [if_pos hBreak]

/- Breaks begin lines. -/
theorem after_breaks
    (hBreaks : ∀ c ∈ breaks, isBreak c = true)
    (hColumn : mark.column = 0) :
    (mark.after breaks).column = 0 := by
  induction breaks generalizing mark with
  | nil => exact hColumn
  | cons c breaks ih =>
      rw [List.forall_mem_cons] at hBreaks
      exact ih hBreaks.2 (column_step_break hBreaks.1 mark)

/- Spaces are left behind. -/
theorem skip_spaces
    (count : Nat) :
    skip count
        (Cursor.on (List.replicate count ' ' ++ rest) size
          mark) =
      .ok ((),
        Cursor.on rest size
          (mark.after (List.replicate count ' '))) := by
  have hSkip :
      skip (List.replicate count ' ').length
          (Cursor.on (List.replicate count ' ' ++ rest) size
            mark) =
        .ok ((),
          Cursor.on rest size
            (mark.after (List.replicate count ' '))) := by
    apply skip_append
    exact List.forall_mem_replicate.mpr (Or.inr rfl)
  rw [List.length_replicate] at hSkip
  exact hSkip

/- Nothing is left behind. -/
theorem skip_none :
    skip 0 (Cursor.on rest size mark) =
      .ok ((), Cursor.on rest size mark) := by
  rfl

/-
  How much of an indentation is left behind: all of it, if
  the indentation is yet to be found, or as much as it is.
-/
structure Indents
    (indent count : Nat)
    (rest : List Char) : Prop where
  found : indent = 0 → rest.head? ≠ some ' '
  least : indent ≠ 0 → count ≤ indent
  most : indent ≠ 0 → count < indent → rest.head? ≠ some ' '
  starts : StartsLine rest

/- The number of spaces that are left behind. -/
theorem Indents.skipped
    {count : Nat}
    (hIndents : Indents indent count rest) :
    (if indent = 0 then
        ((List.replicate count ' ' ++ rest).takeWhile
          (· == ' ')).length
      else
        min
          ((List.replicate count ' ' ++ rest).takeWhile
            (· == ' ')).length
          (indent - 0)) =
      count := by
  have hNone (hFirst : rest.head? ≠ some ' ') :
      (rest.takeWhile (· == ' ')).length = 0 := by
    cases rest with
    | nil => rfl
    | cons c more =>
        have hOther : (c == ' ') = false := by
          rw [beq_eq_false_iff_ne]
          rintro rfl
          exact hFirst rfl
        rw [List.takeWhile_cons, hOther]
        rfl
  rw [length_takeWhile_spaces]
  split
  · rename_i hZero
    rw [hNone (hIndents.found hZero)]
    omega
  · rename_i hSome
    have hLeast := hIndents.least hSome
    by_cases hLess : count < indent
    · rw [hNone (hIndents.most hSome hLess)]
      omega
    · omega

/- Blank lines and an indentation are left behind. -/
theorem exists_blockGap
    {count : Nat}
    (hBreaks : ∀ c ∈ breaks, KeepsBreak c)
    (hIndents : Indents indent count rest)
    (hColumn : mark.column = 0)
    {fuel : Nat}
    (hFuel : breaks.length < fuel)
    (widest : Nat)
    (stop : Mark) :
    ∃ last,
      blockGap indent start fuel widest stop
          (Cursor.on
            (breaks ++ (List.replicate count ' ' ++ rest)) size
            mark) =
        .ok ((max widest count, breaks, last),
          Cursor.on rest size
            ((mark.after breaks).after
              (List.replicate count ' '))) := by
  induction breaks generalizing fuel widest stop mark with
  | nil =>
      rcases Nat.exists_eq_add_one.mpr
          (Nat.zero_lt_of_lt hFuel) with ⟨fuel, rfl⟩
      have hAfter := Mark.column_after_spaces mark count
      rw [hColumn, Nat.zero_add] at hAfter
      have hTab : (rest.head? == some '\t') = false := by
        rw [beq_eq_false_iff_ne]
        intro hEq
        exact (hIndents.starts _ hEq).1 rfl
      have hLine : rest.head?.any isBreak = false := by
        cases rest with
        | nil => rfl
        | cons c more => exact (hIndents.starts c rfl).2
      refine ⟨stop, ?_⟩
      rw [List.nil_append, blockGap, bind_ok (ensure_on 1),
        bind_ok mark_on, bind_ok get_ok]
      simp only [Cursor.on, hColumn]
      rw [hIndents.skipped, ← Cursor.on,
        bind_ok (skip_spaces count), bind_ok (ensure_on 1),
        bind_ok mark_on, bind_ok peek_on, hAfter, hTab, hLine,
        Bool.and_false]
      rfl
  | cons c breaks ih =>
      rw [List.forall_mem_cons] at hBreaks
      rw [List.length_cons] at hFuel
      rcases Nat.exists_eq_add_one.mpr
          (Nat.zero_lt_of_lt hFuel) with ⟨fuel, rfl⟩
      rcases hBreaks.1 with ⟨hBreak, hText⟩
      have hTab : (c == '\t') = false := by
        rw [beq_eq_false_iff_ne]
        rintro rfl
        cases hBreak
      have hSpaces (more : List Char) :
          (c :: more).takeWhile (· == ' ') = [] := by
        apply List.takeWhile_cons_of_neg
        rw [beq_iff_eq]
        rintro rfl
        cases hBreak
      rcases ih hBreaks.2 (column_step_break hBreak mark)
          (Nat.lt_of_succ_lt_succ hFuel) (max widest 0)
          (mark.step c) with ⟨last, hMore⟩
      refine ⟨last, ?_⟩
      rw [List.cons_append, blockGap, bind_ok (ensure_on 1),
        bind_ok mark_on, bind_ok get_ok]
      simp only [Cursor.on, hColumn, hSpaces, List.length_nil,
        Nat.zero_min, ite_self]
      rw [← Cursor.on, bind_ok skip_none,
        bind_ok (ensure_on 1), bind_ok mark_on,
        bind_ok peek_on, hColumn]
      simp only [List.head?_cons, Option.some_beq_some, hTab,
        Bool.and_false, Bool.false_eq_true, if_false,
        Option.any_some, hBreak, if_true]
      rw [bind_ok (ensure_on 2),
        bind_ok (lineBreak_cons hBreak hBreaks.1.ne_return),
        bind_ok mark_on, bind_ok hMore, pure_ok, hText,
        Nat.max_zero]
      rfl

/-
  Blank lines are left behind up to a line whose indentation
  is known, or is found there.
-/
theorem exists_blockIndent
    {count level : Nat}
    {parent : Int}
    (hBreaks : ∀ c ∈ breaks, KeepsBreak c)
    (hIndents : Indents indent count rest)
    (hColumn : mark.column = 0)
    (hSize : breaks.length ≤ size)
    (hLevel :
      (if indent = 0 then
          max (max 0 count) (max (parent + 1).toNat 1)
        else indent) =
        level) :
    ∃ last behind,
      blockIndent parent indent start
          (Cursor.on
            (breaks ++ (List.replicate count ' ' ++ rest)) size
            mark) =
        .ok (⟨level, breaks, last⟩,
          Cursor.on rest size behind) ∧
        behind.column = count := by
  rcases exists_blockGap hBreaks hIndents hColumn
      (Nat.lt_succ_of_le hSize) 0 mark with ⟨last, hGap⟩
  refine
    ⟨last,
      (mark.after breaks).after (List.replicate count ' '), ?_,
      ?_⟩
  · rw [blockIndent, bind_ok fuel_on, bind_ok mark_on,
      bind_ok hGap]
    simp only [hLevel]
    rfl
  · rw [Mark.column_after_spaces,
      after_breaks (fun c hMem => (hBreaks c hMem).1) hColumn,
      Nat.zero_add]

end Scan

end Yaml

end Transclusion

------------------------------------------------------------
-- Lines
------------------------------------------------------------

namespace Transclusion

namespace Yaml

/- A line with some characters, none of which is a tab. -/
structure IsLine
    (line : List Char) : Prop where
  some : line ≠ []
  solid : ∀ c ∈ line, c ≠ '\t' ∧ isBreak c = false

/- A line has no break. -/
theorem IsLine.isBreak_of_mem
    {line : List Char}
    (hLine : IsLine line) :
    ∀ c ∈ line, isBreak c = false :=
  fun c hMem => (hLine.solid c hMem).2

/- What is kept of the breaks at the end of a text. -/
def Chomping.kept
    (chomping : Chomping)
    (ending breaks : List Char) : List Char :=
  match chomping with
  | .strip => []
  | .clip => ending
  | .keep => ending ++ breaks

/-
  Lines, each with its breaks, and the text that they stand
  for.
-/
inductive LiteralLines
    (chomping : Chomping) : List Char → List Char → Prop where
  | last
      {line breaks : List Char}
      {c : Char}
      (hLine : IsLine line)
      (hBreak : KeepsBreak c)
      (hBreaks : ∀ d ∈ breaks, KeepsBreak d) :
      LiteralLines chomping (line ++ c :: breaks)
        (line ++ chomping.kept [c] breaks)
  | more
      {line breaks lines text : List Char}
      {c : Char}
      (hLine : IsLine line)
      (hBreak : KeepsBreak c)
      (hBreaks : ∀ d ∈ breaks, KeepsBreak d)
      (hMore : LiteralLines chomping lines text) :
      LiteralLines chomping (line ++ c :: (breaks ++ lines))
        (line ++ c :: (breaks ++ text))

/- Lines begin with a character that is no gap. -/
theorem LiteralLines.exists_cons
    {chomping : Chomping}
    {lines text : List Char}
    (hLines : LiteralLines chomping lines text) :
    ∃ first more,
      lines = first :: more ∧
        first ≠ '\t' ∧ isBreak first = false := by
  cases hLines with
  | last hLine hBreak hBreaks =>
      rcases List.exists_cons_of_ne_nil hLine.some with
        ⟨first, more, rfl⟩
      exact ⟨_, _, rfl, hLine.solid _ List.mem_cons_self⟩
  | more hLine hBreak hBreaks hMore =>
      rcases List.exists_cons_of_ne_nil hLine.some with
        ⟨first, more, rfl⟩
      exact ⟨_, _, rfl, hLine.solid _ List.mem_cons_self⟩

section

variable {indent : Nat}
variable {line breaks rest : List Char}
variable {c : Char}

/- Within a line nothing is indented. -/
theorem indentLines_append
    (hLine : ∀ c ∈ line, isBreak c = false) :
    indentLines indent false (line ++ rest) =
      line ++ indentLines indent false rest := by
  induction line with
  | nil => rfl
  | cons d line ih =>
      rw [List.forall_mem_cons] at hLine
      rw [List.cons_append, indentLines,
        if_neg (by simp [hLine.1]), ih hLine.2]
      rfl

/- A line is written up to its break. -/
theorem indentLines_line
    (hLine : ∀ c ∈ line, isBreak c = false)
    (hBreak : isBreak c = true) :
    indentLines indent false (line ++ c :: rest) =
      line ++ c :: indentLines indent true rest := by
  rw [indentLines_append hLine, indentLines, if_pos hBreak]

/- Breaks are written without any indentation. -/
theorem indentLines_breaks
    (hBreaks : ∀ c ∈ breaks, isBreak c = true) :
    indentLines indent true (breaks ++ rest) =
      breaks ++ indentLines indent true rest := by
  induction breaks with
  | nil => rfl
  | cons d breaks ih =>
      rw [List.forall_mem_cons] at hBreaks
      rw [List.cons_append, indentLines, if_pos hBreaks.1,
        ih hBreaks.2, List.cons_append]

/- The first line behind breaks is indented. -/
theorem indentLines_first
    (hFirst : isBreak c = false) :
    indentLines indent true (c :: rest) =
      List.replicate indent ' ' ++
        indentLines indent false (c :: rest) := by
  have hNone : ¬ isBreak c = true := by simp [hFirst]
  rw [indentLines, if_neg hNone, indentLines, if_neg hNone]
  rfl

/- A line and the breaks behind it are written as they are. -/
theorem indentLines_last
    (hLine : ∀ c ∈ line, isBreak c = false)
    (hBreak : isBreak c = true)
    (hBreaks : ∀ c ∈ breaks, isBreak c = true) :
    indentLines indent false (line ++ c :: breaks) =
      line ++ c :: breaks := by
  rw [indentLines_line hLine hBreak, ← List.append_nil breaks,
    indentLines_breaks hBreaks, indentLines]

/- Behind the breaks the next line is indented. -/
theorem indentLines_more
    {first : Char}
    {others : List Char}
    (hLine : ∀ c ∈ line, isBreak c = false)
    (hBreak : isBreak c = true)
    (hBreaks : ∀ c ∈ breaks, isBreak c = true)
    (hFirst : isBreak first = false) :
    indentLines indent false
        (line ++ c :: (breaks ++ first :: others)) =
      line ++ c :: (breaks ++
        (List.replicate indent ' ' ++
          indentLines indent false (first :: others))) := by
  rw [indentLines_line hLine hBreak,
    indentLines_breaks hBreaks, indentLines_first hFirst]

/- A text begins as it does without the indentation. -/
theorem head?_indentLines
    (indent : Nat)
    (text : List Char) :
    (indentLines indent false text).head? = text.head? := by
  cases text with
  | nil => rfl
  | cons c rest =>
      rw [indentLines]
      split
      · rfl
      · rfl

end

namespace Scan

variable {rest breaks : List Char}
variable {size : Nat}
variable {mark start : Mark}

/-
  The indentation of lines is found in front of them, unless
  their first character is a space.
-/
theorem indents_lines
    {level : Nat}
    {first : Char}
    {others behind : List Char}
    (hLevel : level ≠ 0)
    (hFirst : first ≠ '\t' ∧ isBreak first = false)
    {known : Bool}
    (hShown : known = false → first ≠ ' ') :
    Indents (if known then level else 0) level
      (indentLines level false (first :: others) ++
        behind) := by
  have hHead :
      (indentLines level false (first :: others) ++
          behind).head? =
        some first := by
    rw [List.head?_append, head?_indentLines]
    rfl
  have hStarts :
      StartsLine
        (indentLines level false (first :: others) ++
          behind) := by
    intro c hMem
    rw [hHead] at hMem
    cases hMem
    exact hFirst
  cases known with
  | true =>
      exact
        ⟨fun hZero => absurd hZero hLevel,
          fun _ => Nat.le_refl _,
          fun _ hIrrefl => absurd hIrrefl (Nat.lt_irrefl _),
          hStarts⟩
  | false =>
      refine
        ⟨fun _ hSpace => hShown rfl ?_,
          fun hNot => absurd rfl hNot,
          fun hNot => absurd rfl hNot, hStarts⟩
      rw [hHead] at hSpace
      exact Option.some.inj hSpace

/- A block ends at a line that is indented less. -/
theorem blockLines_end
    {parent : Int}
    {gap : BlockGap}
    (hColumn : mark.column ≠ gap.indent)
    (chomping : Chomping)
    (fuel : Nat)
    (ending : List Char)
    (wasWhite : Bool) :
    blockLines parent false chomping start (fuel + 1) ending gap
        wasWhite (Cursor.on rest size mark) =
      .ok ((chomping.kept ending gap.breaks, gap.stop),
        Cursor.on rest size mark) := by
  unfold blockLines
  rw [bind_ok peek_on, bind_ok mark_on,
    if_pos (by simp [hColumn])]
  cases chomping with
  | strip => rfl
  | clip => rfl
  | keep => rfl

/- A line is read, and then the lines behind it. -/
theorem blockLines_line
    {parent : Int}
    {chomping : Chomping}
    {line text : List Char}
    {level fuel : Nat}
    {c : Char}
    {gap : BlockGap}
    {last : Mark}
    {behind final : Cursor}
    (hLine : IsLine line)
    (hBreak : KeepsBreak c)
    (hColumn : mark.column = level)
    (hAfter :
      blockIndent parent level start
          (Cursor.on rest size ((mark.after line).step c)) =
        .ok (gap, behind))
    (hMore :
      blockLines parent false chomping start fuel [c] gap
          (line.head?.any isWhite) behind =
        .ok ((text, last), final))
    (ending : List Char)
    (stop : Mark)
    (wasWhite : Bool) :
    blockLines parent false chomping start (fuel + 1) ending
        ⟨level, breaks, stop⟩ wasWhite
        (Cursor.on (line ++ c :: rest) size mark) =
      .ok ((ending ++ breaks ++ line ++ text, last), final) := by
  have hSolid := hLine.isBreak_of_mem
  have hSpan :
      span (fun d => !isBreak d)
          (Cursor.on (line ++ c :: rest) size mark) =
        .ok (line,
          Cursor.on (c :: rest) size (mark.after line)) := by
    apply span_append _ hSolid
    · intro d hMem
      cases hMem
      simp [hBreak.1]
    · intro d hMem
      simp [hSolid d hMem]
  have hFirst : (line ++ c :: rest).head? = line.head? := by
    rcases List.exists_cons_of_ne_nil hLine.some with
      ⟨first, more, rfl⟩
    rfl
  unfold blockLines
  rw [bind_ok peek_on, bind_ok mark_on,
    if_neg (by simp [hColumn]), hFirst]
  simp only [Bool.false_and, Bool.false_eq_true, if_false]
  rw [bind_ok hSpan, bind_ok (ensure_on 2),
    bind_ok (lineBreak_cons hBreak.1 hBreak.ne_return),
    hBreak.2, bind_ok hAfter, bind_ok hMore, pure_ok]

/- Lines are read up to one that is indented less. -/
theorem exists_blockLines
    {parent : Int}
    {chomping : Chomping}
    {lines text : List Char}
    {level count : Nat}
    (hLines : LiteralLines chomping lines text)
    (hEnd : Indents level count rest)
    (hLess : count < level)
    (hColumn : mark.column = level)
    (hSize : lines.length ≤ size)
    {fuel : Nat}
    (hFuel : lines.length < fuel)
    (ending : List Char)
    (stop : Mark)
    (wasWhite : Bool) :
    ∃ last behind,
      blockLines parent false chomping start fuel ending
          ⟨level, breaks, stop⟩ wasWhite
          (Cursor.on
            (indentLines level false lines ++
              (List.replicate count ' ' ++ rest))
            size mark) =
        .ok ((ending ++ breaks ++ text, last),
          Cursor.on rest size behind) ∧
        behind.column = count := by
  have hLevel (found : Nat) :
      (if level = 0 then
          max (max 0 found) (max (parent + 1).toNat 1)
        else level) =
        level :=
    if_neg (by omega)
  induction hLines
    generalizing mark fuel ending breaks stop wasWhite with
  | @last line after c hLine hBreak hBreaks =>
      simp only [List.length_append, List.length_cons]
        at hSize hFuel
      rcases Nat.exists_eq_add_one.mpr
          (Nat.zero_lt_of_lt hFuel) with ⟨fuel, rfl⟩
      rcases Nat.exists_eq_add_one_of_ne_zero
          (show fuel ≠ 0 by omega) with ⟨fuel, rfl⟩
      have hAll : ∀ d ∈ after, isBreak d = true :=
        fun d hMem => (hBreaks d hMem).1
      have hIndent :
          ∃ found behind,
            blockIndent parent level start
                (Cursor.on
                  (after ++
                    (List.replicate count ' ' ++ rest))
                  size ((mark.after line).step c)) =
              .ok (⟨level, after, found⟩,
                Cursor.on rest size behind) ∧
              behind.column = count :=
        exists_blockIndent hBreaks hEnd
          (column_step_break hBreak.1 _) (by omega) (hLevel count)
      rcases hIndent with ⟨found, behind, hIndent, hBehind⟩
      rw [indentLines_last hLine.isBreak_of_mem hBreak.1 hAll,
        List.append_assoc, List.cons_append]
      refine ⟨found, behind, ?_, hBehind⟩
      rw [blockLines_line hLine hBreak hColumn hIndent
        (blockLines_end
          (by rw [hBehind]; exact Nat.ne_of_lt hLess) chomping
          fuel [c] _),
        List.append_assoc]
  | @more line after lines text c hLine hBreak hBreaks hMore
      ih =>
      simp only [List.length_append, List.length_cons]
        at hSize hFuel
      rcases Nat.exists_eq_add_one.mpr
          (Nat.zero_lt_of_lt hFuel) with ⟨fuel, rfl⟩
      have hAll : ∀ d ∈ after, isBreak d = true :=
        fun d hMem => (hBreaks d hMem).1
      rcases hMore.exists_cons with
        ⟨first, others, rfl, hTab, hNone⟩
      have hStarts :
          Indents level level
            (indentLines level false (first :: others) ++
              (List.replicate count ' ' ++ rest)) :=
        indents_lines (by omega) ⟨hTab, hNone⟩
          (show true = false → _ from Bool.noConfusion)
      have hIndent :
          ∃ found behind,
            blockIndent parent level start
                (Cursor.on
                  (after ++
                    (List.replicate level ' ' ++
                      (indentLines level false
                          (first :: others) ++
                        (List.replicate count ' ' ++ rest))))
                  size ((mark.after line).step c)) =
              .ok (⟨level, after, found⟩,
                Cursor.on
                  (indentLines level false (first :: others) ++
                    (List.replicate count ' ' ++ rest))
                  size behind) ∧
              behind.column = level :=
        exists_blockIndent hBreaks hStarts
          (column_step_break hBreak.1 _) (by omega) (hLevel level)
      rcases hIndent with ⟨found, middle, hIndent, hMiddle⟩
      rcases ih hMiddle (by omega)
          (show (first :: others).length < fuel by omega) [c] found
          (line.head?.any isWhite) with
        ⟨last, behind, hRead, hBehind⟩
      rw [indentLines_more hLine.isBreak_of_mem hBreak.1 hAll
        hNone]
      simp only [List.append_assoc, List.cons_append]
      refine ⟨last, behind, ?_, hBehind⟩
      rw [blockLines_line hLine hBreak hColumn hIndent hRead]
      simp only [List.append_assoc, List.cons_append,
        List.nil_append]

end Scan

end Yaml

end Transclusion

------------------------------------------------------------
-- Texts
------------------------------------------------------------

namespace Transclusion

namespace Yaml

/- The indicator of a treatment of the last breaks. -/
def Chomping.indicator : Chomping → List Char
  | .strip => ['-']
  | .clip => []
  | .keep => ['+']

/-
  Whether a treatment of the last breaks gives back lines:
  only what ends in one break need not be kept whole.
-/
def Chomping.Fits
    (chomping : Chomping)
    (lines : List Char) : Prop :=
  chomping = .keep ∨
    ∀ last before more,
      lines.reverse = last :: before :: more →
        isBreak before = false

/- What a treatment of the last breaks leaves of lines. -/
def Chomping.left
    (chomping : Chomping)
    (lines : List Char) : List Char :=
  match chomping with
  | .strip => lines.dropLast
  | .clip => lines
  | .keep => lines

/- A character of literal blocks. -/
def IsLiteralChar
    (c : Char) : Prop :=
  c ≠ '\t' ∧ (isBreak c = true → KeepsBreak c)

/- A text behind all at its start that is of a class. -/
theorem exists_span
    (inClass : Char → Bool)
    (text : List Char) :
    ∃ taken rest,
      text = taken ++ rest ∧
        (∀ c ∈ taken, inClass c = true) ∧
          ∀ c ∈ rest.head?, inClass c = false := by
  refine
    ⟨text.takeWhile inClass, text.dropWhile inClass,
      List.takeWhile_append_dropWhile.symm,
      fun _ => List.mem_takeWhile_imp, ?_⟩
  intro c hFirst
  have hNot := List.head?_dropWhile_not inClass text
  rw [hFirst] at hNot
  exact hNot

/- A text up to its first break. -/
theorem split_line
    (text : List Char) :
    ∃ line rest,
      text = line ++ rest ∧
        (∀ c ∈ line, isBreak c = false) ∧
          ∀ c ∈ rest.head?, isBreak c = true := by
  simpa using exists_span (fun c => !isBreak c) text

/- A text behind its breaks. -/
theorem split_breaks
    (text : List Char) :
    ∃ breaks rest,
      text = breaks ++ rest ∧
        (∀ c ∈ breaks, isBreak c = true) ∧
          ∀ c ∈ rest.head?, isBreak c = false :=
  exists_span isBreak text

namespace Chomping

variable {chomping : Chomping}
variable {lines breaks : List Char}
variable {c : Char}

/- The end of lines decides. -/
theorem Fits.of_append
    {before : List Char}
    (hFits : chomping.Fits (before ++ lines)) :
    chomping.Fits lines := by
  refine hFits.imp_right fun hOne last previous more hEq => ?_
  apply hOne last previous (more ++ before.reverse)
  rw [List.reverse_append, hEq]
  rfl

/- What is left of lines ends in what is left of the last. -/
theorem left_append
    (before : List Char)
    (c : Char)
    (lines : List Char) :
    chomping.left (before ++ c :: lines) =
      before ++ chomping.left (c :: lines) := by
  cases chomping with
  | strip =>
      exact
        List.dropLast_append_of_ne_nil (List.cons_ne_nil c lines)
  | clip => rfl
  | keep => rfl

/- What is left of a line and the breaks behind it. -/
theorem Fits.left_last
    {line : List Char}
    (hFits : chomping.Fits (line ++ c :: breaks))
    (hBreak : isBreak c = true)
    (hBreaks : ∀ d ∈ breaks, isBreak d = true) :
    chomping.left (line ++ c :: breaks) =
      line ++ chomping.kept [c] breaks := by
  rcases hFits with rfl | hOne
  · rfl
  · rcases List.eq_nil_or_concat breaks with
      rfl | ⟨others, last, rfl⟩
    · cases chomping with
      | strip =>
          rw [left, List.dropLast_concat]
          exact (List.append_nil line).symm
      | clip => rfl
      | keep => rfl
    · rw [List.concat_eq_append] at hOne hBreaks
      cases hEnd : (c :: others).reverse with
      | nil => cases List.reverse_eq_nil_iff.mp hEnd
      | cons d more =>
          have hMem : d ∈ c :: others := by
            rw [← List.mem_reverse, hEnd]
            exact List.mem_cons_self
          have hSolid : isBreak d = false := by
            apply hOne last d (more ++ line.reverse)
            rw [← List.cons_append, List.reverse_append,
              ← List.cons_append, ← hEnd,
              List.reverse_append]
            rfl
          have hAll : isBreak d = true := by
            rcases List.mem_cons.mp hMem with rfl | hMem
            · exact hBreak
            · exact hBreaks d (List.mem_append_left _ hMem)
          rw [hSolid] at hAll
          cases hAll

end Chomping

/- What ends in a break is made of lines. -/
theorem literalLines_of_fits
    {chomping : Chomping}
    {lines : List Char}
    (hChars : ∀ c ∈ lines, IsLiteralChar c)
    (hFirst : ∀ c ∈ lines.head?, isBreak c = false)
    (hLast : lines.getLast?.any isBreak = true)
    (hFits : chomping.Fits lines) :
    LiteralLines chomping lines (chomping.left lines) := by
  induction hLength : lines.length using Nat.strongRecOn
    generalizing lines with
  | ind length ih =>
      rcases split_line lines with
        ⟨line, rest, rfl, hSolid, hRest⟩
      rw [List.forall_mem_append] at hChars
      cases rest with
      | nil =>
          rw [List.append_nil] at hLast
          cases hEnd : line.getLast? with
          | none =>
              rw [hEnd] at hLast
              cases hLast
          | some c =>
              rw [hEnd, Option.any_some,
                hSolid c (List.mem_of_getLast? hEnd)] at hLast
              cases hLast
      | cons c rest =>
          rw [List.forall_mem_cons] at hChars
          have hBreak := hRest c rfl
          have hKeeps := hChars.2.1.2 hBreak
          have hLine : IsLine line := by
            constructor
            · rintro rfl
              rw [hFirst c rfl] at hBreak
              cases hBreak
            · exact fun d hMem =>
                ⟨(hChars.1 d hMem).1, hSolid d hMem⟩
          rcases split_breaks rest with
            ⟨breaks, more, rfl, hAll, hMore⟩
          rw [List.forall_mem_append] at hChars
          have hBreaks : ∀ d ∈ breaks, KeepsBreak d :=
            fun d hMem =>
              (hChars.2.2.1 d hMem).2 (hAll d hMem)
          cases more with
          | nil =>
              rw [List.append_nil] at hFits ⊢
              rw [hFits.left_last hBreak hAll]
              exact .last hLine hKeeps hBreaks
          | cons d others =>
              have hWhole :
                  line ++ c :: (breaks ++ d :: others) =
                    (line ++ c :: breaks) ++ d :: others := by
                simp
              rw [hWhole,
                List.getLast?_append_of_ne_nil _
                  (List.cons_ne_nil d others)] at hLast
              rw [hWhole] at hFits hLength
              have hLess : (d :: others).length < length := by
                rw [← hLength]
                simp only [List.length_append,
                  List.length_cons]
                omega
              have hLines :=
                ih _ hLess hChars.2.2.2 hMore hLast
                  hFits.of_append rfl
              rw [hWhole, Chomping.left_append,
                List.append_assoc, List.append_assoc,
                List.cons_append, List.cons_append]
              exact .more hLine hKeeps hBreaks hLines

namespace Scan

variable {rest : List Char}
variable {size : Nat}
variable {mark start : Mark}

/- The header of a block is read. -/
theorem blockHeader_on
    (chomping : Chomping)
    (hidden : Bool)
    (rest : List Char) :
    blockHeader start
        (Cursor.on
          ((if hidden then ['2'] else []) ++
            chomping.indicator ++ '\n' :: rest)
          size mark) =
      .ok (⟨chomping, if hidden then 2 else 0⟩,
        Cursor.on ('\n' :: rest) size
          (mark.after
            ((if hidden then ['2'] else []) ++
              chomping.indicator))) := by
  cases hidden <;> cases chomping <;> rfl

end Scan

end Yaml

end Transclusion

------------------------------------------------------------
-- Blocks
------------------------------------------------------------

namespace Transclusion

namespace Yaml

/- Whether the indentation of a text cannot be seen. -/
def isHidden
    (text : List Char) : Bool :=
  text.head?.any fun c => c == ' ' || isBreak c

/- The treatment of the last breaks of a text. -/
def Chomping.ofText
    (text : List Char) : Chomping :=
  match text.reverse with
  | last :: before :: _ =>
      if !isBreak last then .strip
      else if isBreak before then .keep
      else .clip
  | [last] => if isBreak last then .keep else .strip
  | [] => .strip

/- The line end of a block, if its text does not have one. -/
def literalEnd
    (text : List Char) : List Char :=
  if text.getLast?.any isBreak then [] else ['\n']

variable {text : List Char}

/- The header says how the text is indented and ends. -/
theorem literalHeader_eq
    (text : List Char) :
    literalHeader text =
      '|' :: ((if isHidden text then ['2'] else []) ++
        (Chomping.ofText text).indicator) := by
  unfold literalHeader isHidden Chomping.ofText
  cases text.reverse with
  | nil => rfl
  | cons last more =>
      cases more with
      | nil =>
          cases hLast : isBreak last <;>
            simp [hLast, Chomping.indicator]
      | cons before more =>
          cases hLast : isBreak last <;>
            cases hBefore : isBreak before <;>
              simp [hLast, hBefore, Chomping.indicator]

/- The line end is written as it is. -/
theorem indentLines_ended
    (indent : Nat)
    (broken : Bool)
    (text : List Char) :
    indentLines indent broken (text ++ literalEnd text) =
      indentLines indent broken text ++ literalEnd text := by
  have hEnd (broken : Bool) (text : List Char) :
      indentLines indent broken (text ++ ['\n']) =
        indentLines indent broken text ++ ['\n'] := by
    induction text generalizing broken with
    | nil => rfl
    | cons c rest ih =>
        rw [List.cons_append, indentLines, indentLines, ih, ih]
        split
        · rfl
        · rw [List.append_assoc, List.cons_append]
  unfold literalEnd
  split
  · rw [List.append_nil, List.append_nil]
  · exact hEnd broken text

/- With its line end a text ends in a break. -/
theorem getLast?_ended
    (text : List Char) :
    (text ++ literalEnd text).getLast?.any isBreak = true := by
  unfold literalEnd
  split
  · rename_i hBreak
    rw [List.append_nil]
    exact hBreak
  · rw [List.getLast?_concat]
    rfl

/- With its line end a text is as visible as before. -/
theorem isHidden_ended
    (hSome : text ≠ []) :
    isHidden text = isHidden (text ++ literalEnd text) := by
  rcases List.exists_cons_of_ne_nil hSome with
    ⟨first, more, rfl⟩
  rfl

/- A text of breaks is hidden. -/
theorem isHidden_of_breaks
    (hSome : text ≠ [])
    (hBreaks : ∀ c ∈ text, isBreak c = true) :
    isHidden text = true := by
  rcases List.exists_cons_of_ne_nil hSome with
    ⟨first, more, rfl⟩
  unfold isHidden
  simp [hBreaks first List.mem_cons_self]

/- Where nothing is hidden, no line begins with a space. -/
theorem ne_space_of_isHidden
    {breaks others : List Char}
    {first : Char}
    (hBreaks : ∀ c ∈ breaks, isBreak c = true)
    (hShown : isHidden (breaks ++ first :: others) = false) :
    first ≠ ' ' := by
  rintro rfl
  cases breaks with
  | nil => cases hShown
  | cons c breaks =>
      rw [List.cons_append,
        show isHidden (c :: (breaks ++ ' ' :: others)) =
          (c == ' ' || isBreak c) from rfl,
        hBreaks c List.mem_cons_self, Bool.or_true] at hShown
      cases hShown

/- The line end may occur in a block. -/
theorem isLiteralChar_ended
    (hChars : ∀ c ∈ text, IsLiteralChar c) :
    ∀ c ∈ text ++ literalEnd text, IsLiteralChar c := by
  rw [List.forall_mem_append]
  refine ⟨hChars, fun c hMem => ?_⟩
  unfold literalEnd at hMem
  split at hMem
  · cases hMem
  · rw [List.mem_singleton.mp hMem]
    exact ⟨Char.ne_of_val_ne (by decide), fun _ => ⟨rfl, rfl⟩⟩

namespace Chomping

/- How the last breaks of a text are treated. -/
theorem ofText_cases
    (hSome : text ≠ []) :
    ∃ more last,
      text = more ++ [last] ∧
        (isBreak last = false ∧
              literalEnd text = ['\n'] ∧
                ofText text = .strip ∨
          isBreak last = true ∧
            literalEnd text = [] ∧
              (ofText text = .keep ∨
                ofText text = .clip ∧
                  ∃ start before,
                    more = start ++ [before] ∧
                      isBreak before = false)) := by
  rcases List.eq_nil_or_concat text with
    rfl | ⟨more, last, rfl⟩
  · exact absurd rfl hSome
  · refine ⟨more, last, List.concat_eq_append, ?_⟩
    unfold literalEnd ofText
    rw [List.concat_eq_append, List.getLast?_concat,
      Option.any_some, List.reverse_concat]
    rcases List.eq_nil_or_concat more with
      rfl | ⟨start, before, rfl⟩
    · cases hLast : isBreak last with
      | false => simp [hLast]
      | true => simp [hLast]
    · rw [List.concat_eq_append, List.reverse_concat]
      cases hLast : isBreak last with
      | false => simp [hLast]
      | true =>
          cases hBefore : isBreak before with
          | false => simp [hLast, hBefore]
          | true => simp [hLast, hBefore]

/- The breaks at the end of a text are not lost. -/
theorem fits_ofText
    (hSome : text ≠ []) :
    (ofText text).Fits (text ++ literalEnd text) := by
  rcases ofText_cases hSome with
    ⟨more, last, rfl, ⟨hLast, hEnd, hStrip⟩ |
      ⟨hLast, hEnd, hKeep |
        ⟨hClip, start, before, rfl, hBefore⟩⟩⟩
  · right
    intro a b others hEq
    rw [hEnd, List.reverse_concat, List.reverse_concat] at hEq
    cases hEq
    exact hLast
  · exact Or.inl hKeep
  · right
    intro a b others hEq
    rw [hEnd, List.append_nil, List.reverse_concat,
      List.reverse_concat] at hEq
    cases hEq
    exact hBefore

/- The line end of a text is given up again. -/
theorem left_ofText
    (hSome : text ≠ []) :
    (ofText text).left (text ++ literalEnd text) = text := by
  rcases ofText_cases hSome with
    ⟨more, last, hText, ⟨hLast, hEnd, hStrip⟩ |
      ⟨hLast, hEnd, hKeep | ⟨hClip, _⟩⟩⟩
  · rw [hStrip, hEnd]
    exact List.dropLast_concat
  · rw [hKeep, hEnd]
    exact List.append_nil text
  · rw [hClip, hEnd]
    exact List.append_nil text

/- A text of breaks is kept as a whole. -/
theorem ofText_of_breaks
    (hSome : text ≠ [])
    (hBreaks : ∀ c ∈ text, isBreak c = true) :
    ofText text = .keep ∧ literalEnd text = [] := by
  rcases ofText_cases hSome with
    ⟨more, last, rfl, ⟨hLast, hEnd, hStrip⟩ |
      ⟨hLast, hEnd, hKeep |
        ⟨hClip, start, before, rfl, hBefore⟩⟩⟩
  · rw [hBreaks last (by simp)] at hLast
    cases hLast
  · exact ⟨hKeep, hEnd⟩
  · rw [hBreaks before (by simp)] at hBefore
    cases hBefore

end Chomping

namespace Scan

variable {rest : List Char}
variable {size level count : Nat}
variable {mark : Mark}
variable {parent : Int}

/-
  Blank lines and lines behind them are read as a text, up to
  what is behind them.
-/
def ReadsBlock
    (parent : Int)
    (indent : Nat)
    (chomping : Chomping)
    (size : Nat)
    (mark start : Mark)
    (written text rest : List Char)
    (column : Nat) : Prop :=
  ∃ gap left middle last behind,
    blockIndent parent indent start
        (Cursor.on written size mark) =
      .ok (gap, Cursor.on left size middle) ∧
    blockLines parent false chomping start (size + 1) [] gap
        false (Cursor.on left size middle) =
      .ok ((text, last), Cursor.on rest size behind) ∧
      behind.column = column

/-
  The indentation of a block is known from its header, or it
  is found in front of its first line.
-/
theorem indentation_eq
    (hLevel : level = (max parent 0).toNat + 2)
    {known : Bool}
    {found : Nat}
    (hFound : known = false → found = level) :
    (if (if known then level else 0) = 0 then
        max (max 0 found) (max (parent + 1).toNat 1)
      else if known then level else 0) =
      level := by
  cases known with
  | true => exact if_neg (show level ≠ 0 by omega)
  | false =>
      change max (max 0 found) (max (parent + 1).toNat 1) = level
      rw [hFound rfl]
      omega

/- Blank lines are read as a text of breaks. -/
theorem readsBlock_breaks
    {breaks : List Char}
    (hBreaks : ∀ c ∈ breaks, KeepsBreak c)
    (hEnd : Indents level count rest)
    (hLess : count < level)
    (hColumn : mark.column = 0)
    (hSize : breaks.length ≤ size)
    (start : Mark) :
    ReadsBlock parent level .keep size mark start
      (breaks ++ (List.replicate count ' ' ++ rest)) breaks
      rest count := by
  have hKnown :
      (if level = 0 then
          max (max 0 count) (max (parent + 1).toNat 1)
        else level) =
        level :=
    if_neg (by omega)
  rcases exists_blockIndent hBreaks hEnd hColumn hSize hKnown
    with ⟨last, behind, hIndent, hBehind⟩
  refine ⟨_, _, _, last, behind, hIndent, ?_, hBehind⟩
  exact
    blockLines_end (by rw [hBehind]; exact Nat.ne_of_lt hLess)
      .keep size [] false

/- Lines are read as their text, with the breaks before. -/
theorem readsBlock_lines
    {chomping : Chomping}
    {breaks lines text : List Char}
    {indent : Nat}
    (hBreaks : ∀ c ∈ breaks, KeepsBreak c)
    (hLines : LiteralLines chomping lines text)
    (hIndents :
      Indents indent level
        (indentLines level false lines ++
          (List.replicate count ' ' ++ rest)))
    (hIndent :
      (if indent = 0 then
          max (max 0 level) (max (parent + 1).toNat 1)
        else indent) =
        level)
    (hEnd : Indents level count rest)
    (hLess : count < level)
    (hColumn : mark.column = 0)
    (hSize : breaks.length + lines.length ≤ size)
    (start : Mark) :
    ReadsBlock parent indent chomping size mark start
      (breaks ++
        (List.replicate level ' ' ++
          (indentLines level false lines ++
            (List.replicate count ' ' ++ rest))))
      (breaks ++ text) rest count := by
  rcases exists_blockIndent hBreaks hIndents hColumn
      (show breaks.length ≤ size by omega) hIndent with
    ⟨stop, middle, hGap, hMiddle⟩
  rcases exists_blockLines hLines hEnd hLess hMiddle
      (show lines.length ≤ size by omega)
      (show lines.length < size + 1 by omega) [] stop false with
    ⟨last, behind, hRead, hBehind⟩
  exact ⟨_, _, _, last, behind, hGap, hRead, hBehind⟩

/- The lines of a block are read as its text. -/
theorem readsBlock_text
    (hChars : ∀ c ∈ text, IsLiteralChar c)
    (hSome : text ≠ [])
    (hEnd : Indents level count rest)
    (hLess : count < level)
    (hLevel : level = (max parent 0).toNat + 2)
    (hSize : (text ++ literalEnd text).length ≤ size)
    (hColumn : mark.column = 0)
    (start : Mark) :
    ReadsBlock parent (if isHidden text then level else 0)
      (Chomping.ofText text) size mark start
      (indentLines level true (text ++ literalEnd text) ++
        (List.replicate count ' ' ++ rest))
      text rest count := by
  have hLeft := Chomping.left_ofText hSome
  have hFits := Chomping.fits_ofText hSome
  have hEnded := getLast?_ended text
  have hHidden := isHidden_ended hSome
  have hAllChars := isLiteralChar_ended hChars
  -- The breaks in front are blank lines, not lines.
  rcases split_breaks (text ++ literalEnd text) with
    ⟨breaks, lines, hSplit, hBreaks, hFirst⟩
  rw [hSplit] at hLeft hFits hEnded hHidden hAllChars hSize ⊢
  rw [List.forall_mem_append] at hAllChars
  rw [List.length_append] at hSize
  have hKeeps : ∀ c ∈ breaks, KeepsBreak c :=
    fun c hMem => (hAllChars.1 c hMem).2 (hBreaks c hMem)
  rw [indentLines_breaks hBreaks, List.append_assoc]
  cases lines with
  | nil =>
      rw [List.append_nil] at hSplit hHidden
      have hText : ∀ c ∈ text, isBreak c = true := by
        intro c hMem
        apply hBreaks
        rw [← hSplit]
        exact List.mem_append_left _ hMem
      rcases Chomping.ofText_of_breaks hSome hText with
        ⟨hKeep, hNone⟩
      rw [hNone, List.append_nil] at hSplit
      subst hSplit
      have hKnown : isHidden text = true :=
        isHidden_of_breaks hSome hText
      rw [hKnown, hKeep]
      exact
        readsBlock_breaks hKeeps hEnd hLess hColumn
          (by simpa using hSize) start
  | cons first others =>
      have hSolid := hFirst first rfl
      have hTab := (hAllChars.2 first List.mem_cons_self).1
      rw [List.getLast?_append_of_ne_nil _
        (List.cons_ne_nil first others)] at hEnded
      have hLines :=
        literalLines_of_fits hAllChars.2 hFirst hEnded
          hFits.of_append
      have hShown : isHidden text = false → first ≠ ' ' := by
        rw [hHidden]
        exact ne_space_of_isHidden hBreaks
      rw [Chomping.left_append] at hLeft
      rw [indentLines_first hSolid, List.append_assoc]
      have hRead :=
        readsBlock_lines hKeeps hLines
          (indents_lines (show level ≠ 0 by omega)
            ⟨hTab, hSolid⟩ hShown)
          (indentation_eq hLevel fun _ => rfl) hEnd hLess
          hColumn hSize start
      rw [hLeft] at hRead
      exact hRead

/- A literal block is read as its text. -/
theorem exists_blockScalar
    (hChars : ∀ c ∈ text, IsLiteralChar c)
    (hSome : text ≠ [])
    (hEnd : Indents level count rest)
    (hLess : count < level)
    (hLevel : level = (max parent 0).toNat + 2)
    (hSize : (text ++ literalEnd text).length ≤ size) :
    ∃ stop behind,
      blockScalar parent false
          (Cursor.on
            (literal level text ++ literalEnd text ++
              (List.replicate count ' ' ++ rest))
            size mark) =
        .ok (⟨.scalar text .literal, mark, stop⟩,
          Cursor.on rest size behind) ∧
        behind.column = count := by
  let header :=
    (if isHidden text then ['2'] else []) ++
      (Chomping.ofText text).indicator
  let opened := (mark.step '|').after header
  let lines :=
    indentLines level true (text ++ literalEnd text) ++
      (List.replicate count ' ' ++ rest)
  have hText :
      literal level text ++ literalEnd text ++
          (List.replicate count ' ' ++ rest) =
        '|' :: (header ++ '\n' :: lines) := by
    unfold literal lines header
    rw [literalHeader_eq, indentLines_ended]
    simp
  have hColumn : (opened.step '\n').column = 0 := rfl
  rcases readsBlock_text hChars hSome hEnd hLess hLevel hSize
      hColumn mark with
    ⟨gap, left, middle, stop, behind, hIndent, hLines,
      hBehind⟩
  refine ⟨stop, behind, ?_, hBehind⟩
  have hIncrement :
      (if (if isHidden text then 2 else 0) = 0 then 0
        else
          (max parent 0).toNat +
            if isHidden text then 2 else 0) =
        if isHidden text then level else 0 := by
    rw [hLevel]
    cases isHidden text <;> rfl
  have hWhite :
      skipWhite (Cursor.on ('\n' :: lines) size opened) =
        .ok ((), Cursor.on ('\n' :: lines) size opened) := by
    rfl
  have hComment :
      skipComment (Cursor.on ('\n' :: lines) size opened) =
        .ok ((), Cursor.on ('\n' :: lines) size opened) := by
    rfl
  have hEnds : (!isLineEnd ('\n' :: lines).head?) = false := by
    rfl
  rw [hText, blockScalar, bind_ok mark_on,
    bind_ok (skip_one rfl),
    bind_ok (blockHeader_on _ (isHidden text) lines),
    bind_ok (ensure_on 1), bind_ok hWhite, bind_ok hComment,
    bind_ok peek_on]
  simp only [hEnds, Bool.false_eq_true, if_false]
  rw [bind_ok (ensure_on 2),
    bind_ok
      (lineBreak_cons rfl (Char.ne_of_val_ne (by decide)))]
  simp only [hIncrement]
  rw [bind_ok hIndent, bind_ok (ensure_on 1), bind_ok fuel_on,
    bind_ok hLines]
  rfl

end Scan

end Yaml

end Transclusion
