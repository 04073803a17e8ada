import Transclusion.Document
import Transclusion.Proofs.Text.Lines

/-
  Snippets as they are read.

  Key definitions include:
    * `Transclusion.ShownLine`
    * `Transclusion.readLine?`
    * `Transclusion.readSnippet?`

  Key theorems include:
    * `Transclusion.readLine?_writtenLine`
    * `Transclusion.ParseError.readSnippet?_snippet`

  Every line of a snippet tells its number and a line of the
  text, and whether it is marked.  A number is aligned to
  the right, so the bar behind it is in the same column of
  every line.
-/

------------------------------------------------------------
-- Reading
------------------------------------------------------------

namespace Transclusion

/- A line that is shown, with its number. -/
structure ShownLine where
  marked : Bool
  number : Nat
  line : String
  deriving DecidableEq

/-
  Read a line of a snippet: a mark or a blank, a blank, the
  number behind more blanks, and the line behind a bar.  The
  number has no digit too many.  The column of the bar is
  told as well, counted from zero.
-/
def readLine? : List Char → Option (ShownLine × Nat)
  | mark :: ' ' :: field =>
      let blanks := field.takeWhile (· == ' ')
      let text := field.dropWhile (· == ' ')
      let digits := text.takeWhile Char.isDigit
      let number := Nat.ofDigitChars 10 digits 0
      match text.dropWhile Char.isDigit with
      | ' ' :: '|' :: ' ' :: line =>
          if (mark = '>' ∨ mark = ' ') ∧
              digits = Nat.toDigits 10 number then
            some
              ({ marked := mark == '>'
                 number := number
                 line := String.ofList line },
                blanks.length + digits.length + 3)
          else none
      | _ => none
  | _ => none

/- Read the lines of a snippet, each ended by a line feed. -/
def readSnippet?
    (snippet : String) : Option (List (ShownLine × Nat)) :=
  match (snippet.toList.splitOn '\n').reverse with
  | [] :: ended => ended.reverse.mapM readLine?
  | _ => none

end Transclusion

------------------------------------------------------------
-- Written Lines
------------------------------------------------------------

namespace Transclusion

/- A line of a snippet without its ending. -/
def writtenLine
    (width : Nat)
    (shown : ShownLine) : List Char :=
  (if shown.marked then '>' else ' ') :: ' ' ::
    (Text.padLeft width ' '
        (Nat.toDigits 10 shown.number) ++
      ' ' :: '|' :: ' ' :: shown.line.toList)

variable {width : Nat}
variable {shown : ShownLine}

/- A number that is not negative is written in digits. -/
theorem integerChars_natCast
    (n : Nat) :
    integerChars (n : Int) = Nat.toDigits 10 n := by
  simp [integerChars]

/- Lines are written with their numbers and an ending. -/
theorem toList_snippetLine
    (width : Nat)
    (shown : ShownLine) :
    (ParseError.snippetLine shown.marked width shown.number
        shown.line).toList =
      writtenLine width shown ++ ['\n'] := by
  unfold ParseError.snippetLine writtenLine
  rw [integerChars_natCast]
  cases shown.marked <;> simp

/- A written line has no line feed if the shown line has none. -/
theorem lineFeed_not_mem_writtenLine
    (hLine : '\n' ∉ shown.line.toList) :
    '\n' ∉ writtenLine width shown := by
  have hDigits : '\n' ∉ Nat.toDigits 10 shown.number := by
    intro hMem
    have hDigit :=
      Nat.isDigit_of_mem_toDigits (by omega) (by omega) hMem
    cases hDigit
  cases hMarked : shown.marked <;>
    simp [writtenLine, Text.padLeft, hMarked, hDigits, hLine]

/- A written line is read as what it shows. -/
theorem readLine?_writtenLine
    (hWidth :
      (Nat.toDigits 10 shown.number).length ≤ width) :
    readLine? (writtenLine width shown) =
      some (shown, width + 3) := by
  let digits := Nat.toDigits 10 shown.number
  let blanks := List.replicate (width - digits.length) ' '
  let tail := ' ' :: '|' :: ' ' :: shown.line.toList
  have hDigit : ∀ c ∈ digits, c.isDigit = true := by
    intro c hMem
    exact
      Nat.isDigit_of_mem_toDigits (by omega) (by omega) hMem
  have hSome : digits ≠ [] := Nat.toDigits_ne_nil
  have hFirst :
      ∀ c ∈ (digits ++ tail).head?, (c == ' ') = false := by
    intro c hHead
    rw [List.head?_append_of_ne_nil _ hSome] at hHead
    have hMem := hDigit c (List.mem_of_head? hHead)
    rw [beq_eq_false_iff_ne]
    rintro rfl
    exact absurd hMem (by decide)
  have hBlanks :
      (blanks ++ (digits ++ tail)).takeWhile (· == ' ') =
          blanks ∧
        (blanks ++ (digits ++ tail)).dropWhile (· == ' ') =
          digits ++ tail := by
    apply Text.takeWhile_append _ hFirst
    intro c hMem
    simp [List.eq_of_mem_replicate hMem]
  have hDigits :
      (digits ++ tail).takeWhile Char.isDigit = digits ∧
        (digits ++ tail).dropWhile Char.isDigit = tail := by
    apply Text.takeWhile_append hDigit
    intro c hHead
    cases hHead
    rfl
  have hText :
      writtenLine width shown =
        (if shown.marked then '>' else ' ') :: ' ' ::
          (blanks ++ (digits ++ tail)) := by
    simp [writtenLine, Text.padLeft, blanks, digits, tail]
  have hNumber :
      Nat.ofDigitChars 10 digits 0 = shown.number :=
    Nat.ofDigitChars_ten_toDigits
  have hColumn :
      blanks.length + digits.length + 3 = width + 3 := by
    have hLength : digits.length ≤ width := hWidth
    rw [List.length_replicate]
    omega
  rw [hText]
  unfold readLine?
  simp only [hBlanks, hDigits, tail, hNumber, hColumn,
    String.ofList_toList]
  rcases shown with ⟨marked, number, line⟩
  cases marked
  · rw [if_pos ⟨.inr rfl, rfl⟩]
    rfl
  · rw [if_pos ⟨.inl rfl, rfl⟩]
    rfl

end Transclusion

------------------------------------------------------------
-- Snippets
------------------------------------------------------------

namespace Transclusion

/- What is found for every element is found for all. -/
theorem mapM_eq_some_map
    {α β : Type}
    {find : α → Option β}
    {found : α → β}
    {elements : List α}
    (hEach :
      ∀ one ∈ elements, find one = some (found one)) :
    elements.mapM find = some (elements.map found) := by
  induction elements with
  | nil => rfl
  | cons one elements ih =>
      rw [List.forall_mem_cons] at hEach
      rw [List.mapM_cons, hEach.1, ih hEach.2]
      rfl

/- Lines written to one width are read one by one. -/
theorem readSnippet?_of_toList
    {snippet : String}
    {width : Nat}
    {shown : List ShownLine}
    (hText :
      snippet.toList =
        shown.flatMap (writtenLine width · ++ ['\n']))
    (hLines : ∀ one ∈ shown, '\n' ∉ one.line.toList)
    (hWidth :
      ∀ one ∈ shown,
        (Nat.toDigits 10 one.number).length ≤ width) :
    readSnippet? snippet =
      some (shown.map fun one => (one, width + 3)) := by
  have hWritten :
      ∀ line ∈ shown.map (writtenLine width),
        '\n' ∉ line := by
    intro line hLine
    rcases List.mem_map.mp hLine with ⟨one, hOne, rfl⟩
    exact lineFeed_not_mem_writtenLine (hLines one hOne)
  have hSplit := Text.splitOn_ended hWritten
  rw [List.flatMap_map] at hSplit
  have hRead :
      shown.mapM (readLine? ∘ writtenLine width) =
        some (shown.map fun one => (one, width + 3)) :=
    mapM_eq_some_map fun one hOne =>
      readLine?_writtenLine (hWidth one hOne)
  unfold readSnippet?
  rw [hText, hSplit, List.reverse_append]
  simpa [List.mapM_map] using hRead

/- A window with some lines, all of them in a text. -/
structure Window.IsInside
    (window : Window)
    (count : Nat) : Prop where
  first_pos : 1 ≤ window.first
  first_le_last : window.first ≤ window.last
  last_le : window.last ≤ count

/- The window around a line is inside of a text with lines. -/
theorem Window.isInside_around
    {count : Nat}
    (hCount : 1 ≤ count)
    (line : Option Nat)
    (context : Nat) :
    (around line context count).IsInside count := by
  cases line with
  | none =>
      exact ⟨Nat.le_refl 1, hCount, Nat.le_refl count⟩
  | some line =>
      refine ⟨Nat.le_max_left _ _, ?_, Nat.min_le_left _ _⟩
      dsimp only [around]
      omega

/- Lines are numbered where they stand in the whole. -/
theorem zipIdx_drop_take
    {α : Type}
    (elements : List α)
    (start dropped taken : Nat) :
    ((elements.drop dropped).take taken).zipIdx
        (start + dropped) =
      ((elements.zipIdx start).drop dropped).take taken := by
  apply List.ext_getElem?
  intro i
  rw [List.getElem?_zipIdx, List.getElem?_take,
    List.getElem?_take, List.getElem?_drop,
    List.getElem?_drop, List.getElem?_zipIdx]
  split
  · rw [Nat.add_assoc]
  · rfl

namespace ParseError

/- A line with its number, marked if an error is on it. -/
def shownAs
    (error : ParseError)
    (number : Nat)
    (line : String) : ShownLine where
  marked := error.line == some number
  number := number
  line := line

/- All lines of a text. -/
def numbered
    (error : ParseError) : List ShownLine :=
  ((Text.lines error.source).zipIdx 1).map fun entry =>
    error.shownAs entry.2 entry.1

/- The lines of a text in a window. -/
def shownIn
    (error : ParseError)
    (window : Window) : List ShownLine :=
  (error.numbered.drop (window.first - 1)).take
    (window.last + 1 - window.first)

/- A snippet is made of the lines that its window shows. -/
theorem toList_snippet
    (error : ParseError)
    (context : Nat)
    (hSource : error.source ≠ "") :
    let count := (Text.lines error.source).length
    let window := Window.around error.line context count
    let width := (Nat.toDigits 10 window.last).length
    (error.snippet context).toList =
      (error.shownIn window).flatMap
        (writtenLine width · ++ ['\n']) := by
  intro count window width
  have hCount : 1 ≤ count := by
    rwa [Ne, ← Text.lines_eq_nil_iff, ← Ne,
      ← List.length_pos_iff] at hSource
  have hFirst : 1 ≤ window.first :=
    (Window.isInside_around hCount error.line
      context).first_pos
  have hLines : Text.lines error.source ≠ [] :=
    List.length_pos_iff.mp hCount
  have hNumbered :=
    zipIdx_drop_take (Text.lines error.source) 1
      (window.first - 1) (window.last + 1 - window.first)
  rw [Nat.add_sub_cancel' hFirst] at hNumbered
  unfold snippet shownIn numbered
  simp only [if_neg hLines, integerChars_natCast]
  rw [String.toList_join, List.flatMap_map,
    ← List.map_drop, ← List.map_take, List.flatMap_map,
    ← hNumbered]
  congr 1
  funext entry
  exact
    toList_snippetLine width (error.shownAs entry.2 entry.1)

variable {error : ParseError}
variable {window : Window}

/- The lines of a window are numbered one after the other. -/
theorem map_number_shownIn
    (hInside :
      window.IsInside (Text.lines error.source).length) :
    (error.shownIn window).map ShownLine.number =
      List.range' window.first
        (window.last + 1 - window.first) := by
  rcases hInside with ⟨hFirst, hLast, hCount⟩
  have hNumbers :
      error.numbered.map ShownLine.number =
        List.range' 1 (Text.lines error.source).length := by
    unfold numbered
    rw [List.map_map]
    exact List.zipIdx_map_snd 1 _
  unfold shownIn
  rw [List.map_take, List.map_drop, hNumbers,
    List.drop_range', List.take_range'_of_length_ge]
  · congr 1
    omega
  · omega

/- A line that is shown is the line of its number. -/
theorem of_mem_numbered
    {one : ShownLine}
    (hOne : one ∈ error.numbered) :
    (Text.lines error.source)[one.number - 1]? =
        some one.line ∧
      (one.marked = true ↔
        error.line = some one.number) := by
  rcases List.mem_map.mp hOne with
    ⟨⟨line, number⟩, hEntry, rfl⟩
  rw [List.mk_mem_zipIdx_iff_le_and_getElem?_sub] at hEntry
  exact ⟨hEntry.2, by simp [shownAs]⟩

/- What a window shows is a line of the text. -/
theorem mem_numbered
    {one : ShownLine}
    (hOne : one ∈ error.shownIn window) :
    one ∈ error.numbered :=
  List.mem_of_mem_drop (List.mem_of_mem_take hOne)

/- What a window shows is between its first line and its last. -/
theorem bounds_of_mem_shownIn
    {one : ShownLine}
    (hInside :
      window.IsInside (Text.lines error.source).length)
    (hOne : one ∈ error.shownIn window) :
    window.first ≤ one.number ∧
      one.number ≤ window.last := by
  have hNumber : one.number ∈ List.range' window.first
      (window.last + 1 - window.first) := by
    rw [← map_number_shownIn hInside]
    exact List.mem_map_of_mem hOne
  rw [List.mem_range'_1] at hNumber
  omega

/-
  A snippet is read as the lines that its window shows, with
  the bar in one column.
-/
theorem readSnippet?_snippet
    (error : ParseError)
    (context : Nat)
    (hSource : error.source ≠ "") :
    let count := (Text.lines error.source).length
    let window := Window.around error.line context count
    let width := (Nat.toDigits 10 window.last).length
    readSnippet? (error.snippet context) =
      some
        ((error.shownIn window).map
          fun one => (one, width + 3)) := by
  intro count window width
  have hCount : 1 ≤ count := by
    have hLines : Text.lines error.source ≠ [] := by
      rwa [Ne, Text.lines_eq_nil_iff]
    exact List.length_pos_iff.mpr hLines
  have hInside : window.IsInside count :=
    Window.isInside_around hCount error.line context
  apply readSnippet?_of_toList
    (toList_snippet error context hSource)
  · intro one hOne
    have hLine := (of_mem_numbered (mem_numbered hOne)).1
    apply Text.lineFeed_not_mem_of_mem_lines
    exact List.mem_of_getElem? hLine
  · intro one hOne
    have hNumber := (bounds_of_mem_shownIn hInside hOne).2
    rw [Nat.length_toDigits_le_iff (by omega)
      Nat.length_toDigits_pos]
    have hLast : window.last < 10 ^ width :=
      (Nat.length_toDigits_le_iff (by omega)
        Nat.length_toDigits_pos).mp (Nat.le_refl _)
    exact Nat.lt_of_le_of_lt hNumber hLast

end ParseError

end Transclusion
