import Transclusion.Proofs.Yaml.Run
import Transclusion.Yaml.Token.Scalar

/-
  How far down a reading gets in its text.

  Key definitions include:
    * `Transclusion.Yaml.linesFrom`
    * `Transclusion.Yaml.Cursor.IsWithin`
    * `Transclusion.Yaml.Scan.within`

  Key theorems include:
    * `Transclusion.Yaml.linesFrom_drop_le`
    * `Transclusion.Yaml.Scan.keeps_skip`
    * `Transclusion.Yaml.Scan.keeps_lineBreak`

  The lines above a cursor and the lines that are left never
  get more, as long as nothing behind the end is left behind.
-/

------------------------------------------------------------
-- Lines of a Text
------------------------------------------------------------

namespace Transclusion

namespace Yaml

/-
  Whether a line ends with a character in front of others.
  The first character of a pair does not end a line.
-/
def endsLine
    (c : Char)
    (rest : List Char) : Bool :=
  isBreak c && !(c == '\r' && rest.head? == some '\n')

/-
  The lines that are left of a text.  The first of them may
  have been started; it counts even if nothing is left of it.
-/
def linesFrom : Bool → List Char → Nat
  | started, [] => if started then 1 else 0
  | _, c :: rest =>
      if endsLine c rest then linesFrom false rest + 1
      else linesFrom true rest

/- What is started is at most one line more. -/
theorem linesFrom_le
    (started : Bool)
    (text : List Char) :
    linesFrom false text ≤ linesFrom started text ∧
      linesFrom started text ≤ linesFrom false text + 1 := by
  cases started with
  | false => exact ⟨Nat.le_refl _, Nat.le_succ _⟩
  | true =>
      cases text with
      | nil => exact ⟨Nat.zero_le _, Nat.le_refl _⟩
      | cons c rest =>
          unfold linesFrom
          exact ⟨Nat.le_refl _, Nat.le_succ _⟩

/- Lines do not get more where characters are left behind. -/
theorem linesFrom_drop_le
    {count : Nat}
    {text : List Char}
    (hCount : count ≤ text.length)
    (started : Bool) :
    linesFrom (started || count != 0) (text.drop count) ≤
      linesFrom started text := by
  induction count generalizing started text with
  | zero => simp
  | succ count ih =>
      cases text with
      | nil => cases hCount
      | cons c rest =>
          have hRest := ih (Nat.le_of_succ_le_succ hCount) true
          have hFirst :
              linesFrom true rest ≤
                linesFrom started (c :: rest) := by
            have hMore := (linesFrom_le true rest).2
            rw [linesFrom]
            split
            · exact hMore
            · exact Nat.le_refl _
          simp only [Bool.true_or] at hRest
          simpa using Nat.le_trans hRest hFirst

/- A line that has been started counts. -/
theorem linesFrom_pos
    (text : List Char) :
    1 ≤ linesFrom true text := by
  induction text with
  | nil => exact Nat.le_refl 1
  | cons c rest ih =>
      unfold linesFrom
      split
      · exact Nat.le_add_left 1 _
      · exact ih

/- The beginning of a text has no more lines. -/
theorem linesFrom_append_le
    (started : Bool)
    (text more : List Char) :
    linesFrom started text ≤
      linesFrom started (text ++ more) := by
  induction text generalizing started with
  | nil =>
      cases started with
      | false => exact Nat.zero_le _
      | true => exact linesFrom_pos more
  | cons c rest ih =>
      cases rest with
      | nil =>
          have hMore := linesFrom_pos more
          rw [List.singleton_append]
          unfold linesFrom
          split
          · split
            · exact Nat.add_le_add_right (Nat.zero_le _) 1
            · exact hMore
          · split
            · exact Nat.le_add_left 1 _
            · exact hMore
      | cons d rest =>
          change
            (if endsLine c (d :: rest) then
                linesFrom false (d :: rest) + 1
              else linesFrom true (d :: rest)) ≤
              if endsLine c (d :: rest) then
                linesFrom false (d :: rest ++ more) + 1
              else linesFrom true (d :: rest ++ more)
          split
          · exact Nat.add_le_add_right (ih false) 1
          · exact ih true

/- A break ends a line, if no pair does. -/
theorem linesFrom_break
    {c : Char}
    {rest : List Char}
    (hBreak : isBreak c = true)
    (hPair : ∀ more, c = '\r' → rest ≠ '\n' :: more)
    (started : Bool) :
    linesFrom started (c :: rest) =
      linesFrom false rest + 1 := by
  have hEnds : endsLine c rest = true := by
    unfold endsLine
    rw [hBreak]
    cases rest with
    | nil => simp
    | cons d more =>
        have hNone : ¬ (c = '\r' ∧ d = '\n') := by
          rintro ⟨hReturn, rfl⟩
          exact hPair more hReturn rfl
        simpa [← not_and_or] using hNone
  rw [linesFrom, if_pos hEnds]

end Yaml

end Transclusion

------------------------------------------------------------
-- Cursors
------------------------------------------------------------

namespace Transclusion

namespace Yaml

/- What can be read of a text is its beginning. -/
theorem readable_prefix
    (offset blockStart : Nat)
    (held text : List Char) :
    (Cursor.readable offset blockStart held text).1 <+:
      held.reverse ++ text := by
  fun_induction Cursor.readable offset blockStart held text with
  | case1 offset blockStart held =>
      exact List.prefix_append _ _
  | case2 offset blockStart held c rest next hBlock hAllowed
      more ih =>
      exact List.prefix_append_right_inj _ |>.mpr ih
  | case3 offset blockStart held c rest next hBlock hNot =>
      exact List.prefix_append _ _
  | case4 offset blockStart held c rest next hBlock hAllowed
      ih =>
      rw [List.reverse_cons, List.append_assoc] at ih
      exact ih
  | case5 offset blockStart held c rest next hBlock hNot =>
      exact List.nil_prefix

/-
  A cursor in a text of so many lines: those above it and
  those that are left.
-/
structure Cursor.IsWithin
    (cursor : Cursor)
    (limit : Nat) : Prop where
  lines :
    cursor.mark.line +
        linesFrom (cursor.mark.column != 0) cursor.rest ≤
      limit
  rest : cursor.rest.length ≤ cursor.size

/- A mark on one of so many lines, or right behind the last. -/
def Mark.IsWithin
    (mark : Mark)
    (limit : Nat) : Prop :=
  mark.line ≤ limit

/- The mark of a cursor is in the text or right behind it. -/
theorem Cursor.IsWithin.mark
    {cursor : Cursor}
    {limit : Nat}
    (hCursor : cursor.IsWithin limit) :
    cursor.mark.IsWithin limit :=
  Nat.le_trans (Nat.le_add_right _ _) hCursor.lines

/- The start of a text is within its lines. -/
theorem Mark.isWithin_start
    (limit : Nat) :
    Mark.start.IsWithin limit :=
  Nat.zero_le limit

end Yaml

end Transclusion

------------------------------------------------------------
-- Scans
------------------------------------------------------------

namespace Transclusion

namespace Yaml

namespace Scan

variable {α β : Type}
variable {limit : Nat}
variable {cursor : Cursor}
variable {fine : α → Cursor → Prop}
variable {final : β → Cursor → Prop}

/-
  A cursor stays within so many lines, and what is at fault
  is within them too.
-/
@[reducible]
def within
    (limit : Nat) : Guard SyntaxError Cursor where
  kept cursor := cursor.IsWithin limit
  fault error := error.mark.IsWithin limit

section

variable {next : Mark → Scan β}

/- The mark can be looked at. -/
theorem keeps_mark :
    Keeps (within limit) (mark >>= next) cursor final ↔
      Keeps (within limit) (next cursor.mark) cursor final :=
  keeps_bind_of_ok rfl

end

section

variable {next : Option Char → Scan β}

/- A character can be looked at. -/
theorem keeps_peekAt
    {distance : Nat} :
    Keeps (within limit) (peekAt distance >>= next)
      cursor final ↔
      Keeps (within limit)
        (next cursor.rest[distance]?) cursor final :=
  keeps_bind_of_ok rfl

/- The next character can be looked at. -/
theorem keeps_peek :
    Keeps (within limit) (peek >>= next) cursor final ↔
      Keeps (within limit) (next cursor.rest[0]?)
        cursor final :=
  keeps_bind_of_ok rfl

end

section

variable {next : Bool → Scan β}

/- The next character can be compared. -/
theorem keeps_nextIs
    {c : Char} :
    Keeps (within limit) (nextIs c >>= next) cursor final ↔
      Keeps (within limit)
        (next (cursor.rest[0]? == some c)) cursor final :=
  keeps_bind_of_ok rfl

/- The indicators of documents can be looked for. -/
theorem keeps_atDocumentIndicator
    (hNext : ∀ found,
      Keeps (within limit) (next found) cursor final) :
    Keeps (within limit) (atDocumentIndicator >>= next) cursor
      final :=
  (keeps_bind_of_ok rfl).mpr (hNext _)

end

/- The number of steps is known. -/
theorem keeps_fuel
    {next : Nat → Scan β} :
    Keeps (within limit) (fuel >>= next) cursor final ↔
      Keeps (within limit) (next (cursor.size + 1))
        cursor final :=
  keeps_bind_of_ok rfl

variable (hCursor : cursor.IsWithin limit)

include hCursor

/- A failure is where the cursor is. -/
theorem keeps_fail
    (problem : Problem)
    (activity : Activity)
    (start : Mark) :
    Keeps (within limit) (fail problem activity start)
      cursor fine :=
  hCursor.mark

/- Behind a failure nothing is scanned. -/
theorem keeps_fail_bind
    {next : α → Scan β}
    (problem : Problem)
    (activity : Activity)
    (start : Mark) :
    Keeps (within limit)
      (fail problem activity start >>= next) cursor
      final :=
  hCursor.mark

/- What is ensured changes nothing. -/
theorem keeps_ensure
    (count : Nat) :
    Keeps (within limit) (ensure count) cursor
      fun _ after => after = cursor := by
  have hStart := Mark.isWithin_start limit
  unfold ensure
  rw [keeps_get]
  cases hFault : cursor.fault with
  | none => exact ⟨hCursor, rfl⟩
  | some offset =>
      simp only
      split
      · exact hStart
      · exact ⟨hCursor, rfl⟩

/- Behind what is ensured the rest goes on. -/
theorem keeps_ensure_bind
    {next : Unit → Scan β}
    {count : Nat}
    (hNext : Keeps (within limit) (next ()) cursor final) :
    Keeps (within limit) (ensure count >>= next)
      cursor final := by
  apply (keeps_ensure hCursor count).bind
  rintro _ _ _hAfter rfl
  exact hNext

/- Characters that are there are left behind. -/
theorem keeps_skip
    {count : Nat}
    (hCount : count ≤ cursor.rest.length) :
    Keeps (within limit) (skip count) cursor
      fun _ after =>
        after.rest = cursor.rest.drop count := by
  have hLines :=
    linesFrom_drop_le hCount (cursor.mark.column != 0)
  have hStarted :
      (cursor.mark.column + count != 0) =
        (cursor.mark.column != 0 || count != 0) := by
    rw [Bool.eq_iff_iff]
    simp
    omega
  refine ⟨⟨?_, ?_⟩, rfl⟩
  · have hBefore := hCursor.lines
    dsimp only
    rw [hStarted]
    omega
  · have hBefore := hCursor.rest
    dsimp only
    rw [List.length_drop]
    omega

omit hCursor in
/- The cursor on the next line is within the lines. -/
theorem isWithin_nextLine
    {count : Nat}
    (hCursor : cursor.IsWithin limit)
    (hLines :
      linesFrom (cursor.mark.column != 0) cursor.rest =
        linesFrom false (cursor.rest.drop count) + 1)
    (index : Nat) :
    Cursor.IsWithin
      { cursor with
        rest := cursor.rest.drop count
        mark :=
          { index := index
            line := cursor.mark.line + 1
            column := 0 } }
      limit := by
  have hBefore := hCursor.lines
  have hRest := hCursor.rest
  constructor
  · change
      cursor.mark.line + 1 +
          linesFrom false (cursor.rest.drop count) ≤
        limit
    omega
  · exact Nat.le_trans (List.drop_sublist _ _).length_le hRest

/- A line break that comes next is left behind. -/
theorem keeps_lineBreak :
    Keeps (within limit) lineBreak cursor
      fun _ after =>
        after.rest.length ≤ cursor.rest.length ∧
          (cursor.rest[0]?.any isBreak = true →
            after.rest.length < cursor.rest.length) := by
  unfold lineBreak
  rw [keeps_get]
  simp only
  split
  · rename_i rest hRest
    have hLines :
        linesFrom (cursor.mark.column != 0) cursor.rest =
          linesFrom false (cursor.rest.drop 2) + 1 := by
      rw [hRest]
      rfl
    have hLess :
        (cursor.rest.drop 2).length < cursor.rest.length := by
      rw [hRest]
      exact Nat.lt_add_of_pos_right Nat.two_pos
    rw [keeps_set]
    exact
      keeps_pure (isWithin_nextLine hCursor hLines _)
        ⟨Nat.le_of_lt hLess, fun _ => hLess⟩
  · rename_i c rest hPair hRest
    split
    · rename_i hBreak
      have hLines :
          linesFrom (cursor.mark.column != 0) cursor.rest =
            linesFrom false (cursor.rest.drop 1) + 1 := by
        rw [hRest]
        apply linesFrom_break hBreak
        rintro more rfl rfl
        exact hPair more rfl rfl
      have hLess :
          (cursor.rest.drop 1).length <
            cursor.rest.length := by
        rw [hRest]
        exact Nat.lt_succ_self _
      have hAfter := isWithin_nextLine hCursor hLines
      rw [keeps_set]
      split
      · exact
          keeps_pure (hAfter _)
            ⟨Nat.le_of_lt hLess, fun _ => hLess⟩
      · exact
          keeps_pure (hAfter _)
            ⟨Nat.le_of_lt hLess, fun _ => hLess⟩
    · rename_i hBreak
      refine keeps_pure hCursor ⟨Nat.le_refl _, ?_⟩
      simp [hRest, hBreak]
  · rename_i hRest
    refine keeps_pure hCursor ⟨Nat.le_refl _, ?_⟩
    simp [hRest]

/- The characters of a class are left behind. -/
theorem keeps_span
    (inClass : Char → Bool) :
    Keeps (within limit) (span inClass) cursor
      fun _ _ => True := by
  unfold span
  rw [keeps_get]
  apply (keeps_skip hCursor _).bind
  · intro _ after hAfter _hRest
    apply keeps_ensure_bind hAfter
    exact keeps_pure hAfter trivial
  · exact (List.takeWhile_sublist _).length_le

/- Blanks are left behind. -/
theorem keeps_skipWhite :
    Keeps (within limit) skipWhite cursor
      fun _ _ => True := by
  apply (keeps_span hCursor isWhite).bind
  intro _ after hAfter _
  exact keeps_pure hAfter trivial

/- A comment is left behind. -/
theorem keeps_skipComment :
    Keeps (within limit) skipComment cursor
      fun _ _ => True := by
  unfold skipComment
  rw [keeps_nextIs]
  split
  · apply (keeps_span hCursor _).bind
    intro _ after hAfter _
    exact keeps_pure hAfter trivial
  · exact keeps_pure hCursor trivial

end Scan

end Yaml

end Transclusion
