import Mathlib.Data.List.Basic
import Transclusion.Text.Lines

/-
  Texts taken apart: into lines, and at the first character
  that does not belong.

  Key theorems include:
    * `Transclusion.Text.takeWhile_append`
    * `Transclusion.Text.lineFeed_not_mem_of_mem_lines`
    * `Transclusion.Text.splitOn_ended`
-/

------------------------------------------------------------
-- Runs of Characters
------------------------------------------------------------

namespace Transclusion

namespace Text

variable {taken rest : List Char}

/-
  What belongs together is taken up to the first character
  that does not belong.
-/
theorem takeWhile_append
    {belongs : Char → Bool}
    (hTaken : ∀ c ∈ taken, belongs c = true)
    (hRest : ∀ c ∈ rest.head?, belongs c = false) :
    (taken ++ rest).takeWhile belongs = taken ∧
      (taken ++ rest).dropWhile belongs = rest := by
  rw [List.takeWhile_append_of_pos hTaken,
    List.dropWhile_append_of_pos hTaken]
  cases rest with
  | nil => simp
  | cons c more =>
      have hFirst : belongs c = false := hRest c rfl
      simp [hFirst]

end Text

end Transclusion

------------------------------------------------------------
-- Lines
------------------------------------------------------------

namespace Transclusion

namespace Text

/- No line holds a line feed. -/
theorem lineFeed_not_mem_of_mem_linesOf
    {text line : List Char}
    (hLine : line ∈ linesOf text) :
    '\n' ∉ line := by
  fun_induction linesOf text generalizing line with
  | case1 => cases hLine
  | case2 rest ih =>
      rcases List.mem_cons.mp hLine with rfl | hRest
      · exact List.not_mem_nil
      · exact ih hRest
  | case3 rest ih =>
      rcases List.mem_cons.mp hLine with rfl | hRest
      · exact List.not_mem_nil
      · exact ih hRest
  | case4 c rest hFeed hReturn hNil ih =>
      rw [List.mem_singleton] at hLine
      subst hLine
      simp [Ne.symm hFeed]
  | case5 c rest hFeed hReturn first more hMore ih =>
      rw [hMore] at ih
      rcases List.mem_cons.mp hLine with rfl | hRest
      · have hFirst := ih List.mem_cons_self
        simp [Ne.symm hFeed, hFirst]
      · exact ih (List.mem_cons_of_mem _ hRest)

/- No line of a string holds a line feed. -/
theorem lineFeed_not_mem_of_mem_lines
    {text line : String}
    (hLine : line ∈ lines text) :
    '\n' ∉ line.toList := by
  rcases List.mem_map.mp hLine with ⟨chars, hChars, rfl⟩
  rw [String.toList_ofList]
  exact lineFeed_not_mem_of_mem_linesOf hChars

/- Lines that are each ended by a line feed are told apart. -/
theorem splitOn_ended
    {lines : List (List Char)}
    (hLines : ∀ line ∈ lines, '\n' ∉ line) :
    (lines.flatMap (· ++ ['\n'])).splitOn '\n' =
      lines ++ [[]] := by
  induction lines with
  | nil => rfl
  | cons line lines ih =>
      rw [List.forall_mem_cons] at hLines
      rw [List.flatMap_cons, List.append_assoc,
        List.singleton_append,
        List.splitOn_append_cons_self_of_not_mem hLines.1,
        ih hLines.2, List.cons_append]

end Text

end Transclusion
