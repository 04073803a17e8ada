/-
  Blank characters and the lines of a text.

  Key definitions include:
    * `Transclusion.Text.isBlank`
    * `Transclusion.Text.IsBlankText`
    * `Transclusion.Text.lines`

  Key theorems include:
    * `Transclusion.Text.lines_eq_nil_iff`

  A line ends at a line feed, and a carriage return right
  before that line feed belongs to the ending.  A text that
  does not end in a line feed has one more line, of what
  follows the last one.
-/

------------------------------------------------------------
-- Blank Characters
------------------------------------------------------------

namespace Transclusion

namespace Text

/-
  The characters with the Unicode property `White_Space`.
-/
def isBlank
    (c : Char) : Bool :=
  let code := c.toNat
  (9 ≤ code && code ≤ 13) ||
    code == 0x20 ||
    code == 0x85 ||
    code == 0xA0 ||
    code == 0x1680 ||
    (0x2000 ≤ code && code ≤ 0x200A) ||
    code == 0x2028 ||
    code == 0x2029 ||
    code == 0x202F ||
    code == 0x205F ||
    code == 0x3000

/- A text in which every character is blank. -/
def IsBlankText
    (text : String) : Prop :=
  ∀ c ∈ text.toList, isBlank c = true

instance
    (text : String) :
    Decidable (IsBlankText text) :=
  List.decidableBAll (fun c => isBlank c = true) text.toList

end Text

end Transclusion

------------------------------------------------------------
-- Lines
------------------------------------------------------------

namespace Transclusion

namespace Text

/- The lines of a text, without their endings. -/
def linesOf : List Char → List (List Char)
  | [] => []
  | '\n' :: rest => [] :: linesOf rest
  | '\r' :: '\n' :: rest => [] :: linesOf rest
  | c :: rest =>
      match linesOf rest with
      | [] => [[c]]
      | line :: more => (c :: line) :: more

/- The lines of a string. -/
def lines
    (text : String) : List String :=
  (linesOf text.toList).map String.ofList

/- Only the empty text has no line. -/
theorem linesOf_eq_nil_iff
    (text : List Char) :
    linesOf text = [] ↔ text = [] := by
  fun_cases linesOf text with
  | case1 => simp
  | case2 => simp
  | case3 => simp
  | case4 => simp
  | case5 => simp

/- Only the empty string has no line. -/
theorem lines_eq_nil_iff
    (text : String) :
    lines text = [] ↔ text = "" := by
  simp [lines, linesOf_eq_nil_iff]

end Text

end Transclusion
