import Transclusion.Proofs.Document.Snippet

/-
  Windows of snippets, also in words of 64 bits.

  Key definitions include:
    * `Transclusion.Word.addSaturating`
    * `Transclusion.Word.subSaturating`
    * `Transclusion.snippetInWords?`

  Key theorems include:
    * `Transclusion.snippetInWords?_eq`
    * `Transclusion.ParseError.snippet_shows`

  A window reaches as far on both sides of its line as the
  text does.  Words that stop at zero and at the largest
  word come to the same window as numbers without bounds.
-/

------------------------------------------------------------
-- Words
------------------------------------------------------------

namespace Transclusion

namespace Word

/- The largest word of 64 bits. -/
def largest : UInt64 :=
  0xFFFFFFFFFFFFFFFF

/- A sum that stops at the largest word. -/
def addSaturating
    (a b : UInt64) : UInt64 :=
  if a ≤ largest - b then a + b else largest

/- A difference that stops at zero. -/
def subSaturating
    (a b : UInt64) : UInt64 :=
  if b ≤ a then a - b else 0

/- A difference, unless it is below zero. -/
def sub?
    (a b : UInt64) : Option UInt64 :=
  if b ≤ a then some (a - b) else none

/- The larger of two words. -/
def larger
    (a b : UInt64) : UInt64 :=
  if a ≤ b then b else a

/- The smaller of two words. -/
def smaller
    (a b : UInt64) : UInt64 :=
  if a ≤ b then a else b

/- A word between two bounds, which have to be in order. -/
def clamp?
    (word low high : UInt64) : Option UInt64 :=
  if low ≤ high then
    some (larger low (smaller word high))
  else none

/- The words from one to another, both included. -/
def upTo
    (first last : UInt64) : List UInt64 :=
  (List.range' first.toNat
      (last.toNat + 1 - first.toNat)).map UInt64.ofNat

/- No word is larger than the largest. -/
theorem toNat_le_largest
    (word : UInt64) :
    word.toNat ≤ largest.toNat :=
  Nat.le_of_lt_succ word.toNat_lt

/- A number up to the largest word is kept by its word. -/
theorem toNat_ofNat
    {n : Nat}
    (hFits : n ≤ largest.toNat) :
    (UInt64.ofNat n).toNat = n :=
  UInt64.toNat_ofNat_of_lt (Nat.lt_succ_of_le hFits)

/- A saturating sum is a sum below a bound. -/
theorem toNat_addSaturating
    (a b : UInt64) :
    (addSaturating a b).toNat =
      min (a.toNat + b.toNat) largest.toNat := by
  have hLe : b ≤ largest := by
    rw [UInt64.le_iff_toNat_le]
    exact toNat_le_largest b
  have hB := toNat_le_largest b
  have hSub := UInt64.toNat_sub_of_le largest b hLe
  unfold addSaturating
  split
  · rename_i hFits
    rw [UInt64.le_iff_toNat_le, hSub] at hFits
    have hSum : a.toNat + b.toNat ≤ largest.toNat := by
      omega
    have hAdd : (a + b).toNat = a.toNat + b.toNat := by
      rw [UInt64.toNat_add]
      exact Nat.mod_eq_of_lt (Nat.lt_succ_of_le hSum)
    omega
  · rename_i hFits
    rw [UInt64.le_iff_toNat_le, hSub] at hFits
    omega

/- A saturating difference is one of natural numbers. -/
theorem toNat_subSaturating
    (a b : UInt64) :
    (subSaturating a b).toNat = a.toNat - b.toNat := by
  unfold subSaturating
  split
  · rename_i hLe
    exact UInt64.toNat_sub_of_le a b hLe
  · rename_i hLe
    rw [UInt64.le_iff_toNat_le] at hLe
    rw [UInt64.toNat_zero]
    omega

/- The larger word is the larger number. -/
theorem toNat_larger
    (a b : UInt64) :
    (larger a b).toNat = max a.toNat b.toNat := by
  unfold larger
  simp only [UInt64.le_iff_toNat_le]
  split
  · omega
  · omega

/- The smaller word is the smaller number. -/
theorem toNat_smaller
    (a b : UInt64) :
    (smaller a b).toNat = min a.toNat b.toNat := by
  unfold smaller
  simp only [UInt64.le_iff_toNat_le]
  split
  · omega
  · omega

end Word

end Transclusion

------------------------------------------------------------
-- Snippets in Words
------------------------------------------------------------

namespace Transclusion

open Word

/-
  The first and the last word of a window.  There is none if
  the bounds of the line are out of order.
-/
def windowInWords?
    (line : Option UInt64)
    (context count : UInt64) : Option (UInt64 × UInt64) :=
  match line with
  | none => some (1, count)
  | some line =>
      (clamp? line 1 count).map fun near =>
        (larger (subSaturating near context) 1,
          smaller (addSaturating near context) count)

/-
  A line of a snippet by its word.  There is none if the
  index gets below zero or is not in the text.
-/
def lineInWords?
    (lines : List String)
    (line : Option UInt64)
    (width : Nat)
    (number : UInt64) : Option String := do
  let index ← sub? number 1
  let text ← lines[index.toNat]?
  some
    (ParseError.snippetLine (line == some number) width
      number.toNat text)

/-
  A snippet computed in words.  There is none if a word gets
  out of bounds or a line does not exist.
-/
def snippetInWords?
    (source : String)
    (line : Option UInt64)
    (context : UInt64) : Option String :=
  let lines := Text.lines source
  if lines = [] then some ""
  else do
    let count := UInt64.ofNat lines.length
    let (first, last) ← windowInWords? line context count
    let width := (integerChars last.toNat).length
    let written ←
      (upTo first last).mapM (lineInWords? lines line width)
    some (String.join written)

/- The window in words is the window. -/
theorem windowInWords?_eq
    {count : UInt64}
    (hCount : 1 ≤ count.toNat)
    (line : Option UInt64)
    (context : UInt64) :
    ∃ first last,
      windowInWords? line context count =
          some (first, last) ∧
        Window.around (line.map UInt64.toNat) context.toNat
            count.toNat =
          ⟨first.toNat, last.toNat⟩ := by
  cases line with
  | none => exact ⟨1, count, rfl, rfl⟩
  | some line =>
      have hOne : (1 : UInt64).toNat = 1 := rfl
      have hOrder : (1 : UInt64) ≤ count := by
        rw [UInt64.le_iff_toNat_le]
        exact hCount
      let near := larger 1 (smaller line count)
      have hClamp : clamp? line 1 count = some near :=
        if_pos hOrder
      have hNear :
          near.toNat =
            max 1 (min line.toNat count.toNat) := by
        rw [toNat_larger, toNat_smaller, hOne]
      refine
        ⟨larger (subSaturating near context) 1,
          smaller (addSaturating near context) count, ?_, ?_⟩
      · simp only [windowInWords?, hClamp, Option.map_some]
      · have hBound := toNat_le_largest count
        unfold Window.around
        rw [toNat_larger, toNat_smaller,
          toNat_addSaturating, toNat_subSaturating, hNear,
          hOne]
        simp only [Option.map_some, Window.mk.injEq]
        constructor
        · omega
        · omega

/- A line of the text is written the same by its word. -/
theorem lineInWords?_of_getElem?
    {lines : List String}
    {line : Option UInt64}
    {width number : Nat}
    {text : String}
    (hCount : lines.length ≤ largest.toNat)
    (hFirst : 1 ≤ number)
    (hText : lines[number - 1]? = some text) :
    lineInWords? lines line width (UInt64.ofNat number) =
      some
        (ParseError.snippetLine
          (line.map UInt64.toNat == some number) width
          number text) := by
  have hIn : number - 1 < lines.length :=
    (List.getElem?_eq_some_iff.mp hText).1
  have hFits : number ≤ largest.toNat := by
    omega
  have hWord : (UInt64.ofNat number).toNat = number :=
    toNat_ofNat hFits
  have hOne : (1 : UInt64) ≤ UInt64.ofNat number := by
    rw [UInt64.le_iff_toNat_le, hWord]
    exact hFirst
  have hIndex :
      (UInt64.ofNat number - 1).toNat = number - 1 := by
    rw [UInt64.toNat_sub_of_le _ _ hOne, hWord]
    rfl
  have hMarked :
      (line == some (UInt64.ofNat number)) =
        (line.map UInt64.toNat == some number) := by
    cases line with
    | none => rfl
    | some line =>
        rw [Bool.eq_iff_iff]
        simp [← UInt64.toNat_inj, hWord]
  unfold lineInWords?
  simp only [sub?, if_pos hOne, hIndex, hText, hMarked, hWord,
    Option.bind_eq_bind, Option.bind_some]

/- The lines of a window are written the same by words. -/
theorem mapM_lineInWords?
    {lines : List String}
    {first last : UInt64}
    (hCount : lines.length ≤ largest.toNat)
    (hInside :
      Window.IsInside ⟨first.toNat, last.toNat⟩
        lines.length)
    (line : Option UInt64)
    (width : Nat) :
    let shown :=
      (lines.drop (first.toNat - 1)).take
        (last.toNat + 1 - first.toNat)
    (upTo first last).mapM (lineInWords? lines line width) =
      some
        ((shown.zipIdx first.toNat).map fun entry =>
          ParseError.snippetLine
            (line.map UInt64.toNat == some entry.2) width
            entry.2 entry.1) := by
  intro shown
  have hFirst : 1 ≤ first.toNat := hInside.first_pos
  have hLast : last.toNat ≤ lines.length := hInside.last_le
  have hLength :
      shown.length = last.toNat + 1 - first.toNat := by
    dsimp only [shown]
    rw [List.length_take, List.length_drop]
    omega
  have hWords :
      upTo first last =
        (shown.zipIdx first.toNat).map
          fun entry => UInt64.ofNat entry.2 := by
    unfold upTo
    rw [← hLength, ← List.zipIdx_map_snd, List.map_map]
    rfl
  rw [hWords, List.mapM_map]
  apply mapM_eq_some_map
  rintro ⟨text, number⟩ hEntry
  rw [List.mk_mem_zipIdx_iff_le_and_getElem?_sub] at hEntry
  rcases hEntry with ⟨hLe, hText⟩
  apply lineInWords?_of_getElem? hCount
  · omega
  · rw [List.getElem?_take] at hText
    split at hText
    · rw [List.getElem?_drop] at hText
      rw [← hText]
      congr 1
      omega
    · cases hText

/- A snippet computed in words is the snippet. -/
theorem snippetInWords?_eq
    {error : ParseError}
    {line : Option UInt64}
    {context : UInt64}
    (hCount :
      (Text.lines error.source).length ≤ largest.toNat)
    (hLine : error.line = line.map UInt64.toNat) :
    snippetInWords? error.source line context =
      some (error.snippet context.toNat) := by
  by_cases hNil : Text.lines error.source = []
  · simp only [snippetInWords?, ParseError.snippet, hNil,
      if_true]
  · let count := (Text.lines error.source).length
    have hSome : 1 ≤ count := List.length_pos_iff.mpr hNil
    have hWord : (UInt64.ofNat count).toNat = count :=
      toNat_ofNat hCount
    have hSomeWord : 1 ≤ (UInt64.ofNat count).toNat := by
      rw [hWord]
      exact hSome
    rcases windowInWords?_eq hSomeWord line context with
      ⟨first, last, hWindow, hAround⟩
    rw [hWord, ← hLine] at hAround
    have hInside :=
      Window.isInside_around hSome error.line context.toNat
    rw [hAround] at hInside
    have hWritten :=
      mapM_lineInWords? hCount hInside line
        (integerChars last.toNat).length
    rw [← hLine] at hWritten
    unfold snippetInWords? ParseError.snippet
    simp only [if_neg hNil]
    rw [hAround, hWindow, Option.bind_eq_bind,
      Option.bind_some]
    dsimp only
    rw [hWritten]
    rfl

end Transclusion

------------------------------------------------------------
-- Windows
------------------------------------------------------------

namespace Transclusion

namespace Window

variable {count : Nat}

/- A window reaches as far as its text on both sides. -/
theorem around_eq
    (hCount : 1 ≤ count)
    (line context : Nat) :
    let near : Int := max 1 (min line count)
    let window := around (some line) context count
    (window.first : Int) = max 1 (near - context) ∧
      (window.last : Int) =
        min (count : Int) (near + context) := by
  intro near window
  dsimp only [near, window, around]
  constructor
  · omega
  · omega

/- A window holds the line that it is around. -/
theorem near_mem_around
    (hCount : 1 ≤ count)
    (line context : Nat) :
    let near := max 1 (min line count)
    let window := around (some line) context count
    window.first ≤ near ∧ near ≤ window.last := by
  intro near window
  dsimp only [near, window, around]
  omega

/- A window is at most its line and both of its sides. -/
theorem length_around_le
    (line context count : Nat) :
    let window := around (some line) context count
    window.last + 1 - window.first ≤ 2 * context + 1 := by
  intro window
  dsimp only [window, around]
  omega

/- With more context a window gets wider. -/
theorem around_succ
    (line : Option Nat)
    (context count : Nat) :
    let window := around line context count
    let wider := around line (context + 1) count
    wider.first ≤ window.first ∧
      window.last ≤ wider.last := by
  intro window wider
  cases line with
  | none => exact ⟨Nat.le_refl _, Nat.le_refl _⟩
  | some line =>
      dsimp only [window, wider, around]
      omega

end Window

/- A wider window shows all that a window shows. -/
theorem ParseError.shownIn_infix
    {window wider : Window}
    (hFirst : wider.first ≤ window.first)
    (hLast : window.last ≤ wider.last)
    (error : ParseError) :
    error.shownIn window <:+: error.shownIn wider := by
  have hShown :
      error.shownIn window =
        ((error.shownIn wider).drop
            (window.first - 1 - (wider.first - 1))).take
          (window.last + 1 - window.first) := by
    unfold shownIn
    rw [List.drop_take, List.take_take, List.drop_drop]
    congr 1
    · omega
    · congr 1
      omega
  rw [hShown]
  exact
    (List.take_prefix _ _).isInfix.trans
      (List.drop_suffix _ _).isInfix

end Transclusion

------------------------------------------------------------
-- What Snippets Show
------------------------------------------------------------

namespace Transclusion

namespace ParseError

/-
  What a snippet shows of a text with some lines.  It is read
  as lines of the text, unchanged, numbered one after the
  other, with the bar in one column.  Without a line these
  are all lines.  With a line these are the lines around it,
  moved into the text if it is outside, with the line itself.
  With more context no line is lost.  Words of 64 bits show
  the same and never get out of bounds.
-/
theorem snippet_shows
    (error : ParseError)
    (context : Nat)
    (hLines : Text.lines error.source ≠ []) :
    let lines := Text.lines error.source
    let count := lines.length
    ∃ (shown : List ShownLine) (column first last : Nat),
      readSnippet? (error.snippet context) =
          some (shown.map fun one => (one, column)) ∧
        shown.map ShownLine.number =
          List.range' first (last + 1 - first) ∧
        (∀ one ∈ shown,
          lines[one.number - 1]? = some one.line ∧
            (one.marked = true ↔
              error.line = some one.number)) ∧
        (error.line = none → first = 1 ∧ last = count) ∧
        (∀ line : Nat, error.line = some line →
          let near : Int := max 1 (min line count)
          (first : Int) = max 1 (near - context) ∧
            (last : Int) =
              min (count : Int) (near + context) ∧
            (∃ one ∈ shown, (one.number : Int) = near) ∧
            shown.length ≤ 2 * context + 1) ∧
        (∃ (more : List ShownLine) (column' : Nat),
          readSnippet? (error.snippet (context + 1)) =
              some (more.map fun one => (one, column')) ∧
            shown <:+: more) ∧
        (∀ (line : Option UInt64) (word : UInt64),
          count ≤ Word.largest.toNat →
            error.line = line.map UInt64.toNat →
            context = word.toNat →
            snippetInWords? error.source line word =
              some (error.snippet context)) := by
  intro lines count
  have hSource : error.source ≠ "" := by
    rwa [Ne, ← Text.lines_eq_nil_iff]
  have hCount : 1 ≤ count := List.length_pos_iff.mpr hLines
  let window := Window.around error.line context count
  have hInside : window.IsInside count :=
    Window.isInside_around hCount error.line context
  have hNumbers := map_number_shownIn hInside
  have hWider := Window.around_succ error.line context count
  refine
    ⟨error.shownIn window, _, window.first, window.last,
      readSnippet?_snippet error context hSource, hNumbers,
      ?_, ?_, ?_, ?_, ?_⟩
  · intro one hOne
    exact of_mem_numbered (mem_numbered hOne)
  · intro hLine
    dsimp only [window]
    rw [hLine]
    exact ⟨rfl, rfl⟩
  · intro line hLine near
    have hWindow :
        window = Window.around (some line) context count := by
      dsimp only [window]
      rw [hLine]
    have hBounds := Window.around_eq hCount line context
    have hNear := Window.near_mem_around hCount line context
    have hLength :=
      Window.length_around_le line context count
    rw [← hWindow] at hBounds hNear hLength
    refine ⟨hBounds.1, hBounds.2, ?_, ?_⟩
    · have hMem :
          max 1 (min line count) ∈
            (error.shownIn window).map ShownLine.number := by
        rw [hNumbers, List.mem_range'_1]
        omega
      rcases List.mem_map.mp hMem with ⟨one, hOne, hNumber⟩
      refine ⟨one, hOne, ?_⟩
      rw [hNumber]
      dsimp only [near]
      omega
    · rw [← List.length_map ShownLine.number, hNumbers,
        List.length_range']
      exact hLength
  · exact
      ⟨_, _, readSnippet?_snippet error (context + 1) hSource,
        shownIn_infix hWider.1 hWider.2 error⟩
  · intro line word hFits hLine hWord
    rw [hWord]
    exact snippetInWords?_eq hFits hLine

/- An error past the end of a text of three lines. -/
def pastEnd : ParseError where
  message := "boom"
  location := some ⟨5, 1⟩
  source := "one\ntwo\nthree\n"

/- The largest word as context shows all three lines. -/
theorem snippet_shows_largest :
    Text.lines pastEnd.source ≠ [] ∧
      ∃ (shown : List ShownLine) (column : Nat),
        readSnippet? (pastEnd.snippet Word.largest.toNat) =
            some (shown.map fun one => (one, column)) ∧
          shown.map ShownLine.number = [1, 2, 3] ∧
          (∀ one ∈ shown, one.marked = false) ∧
          snippetInWords? pastEnd.source (some 5)
              Word.largest =
            some (pastEnd.snippet Word.largest.toNat) := by
  have hLines : Text.lines pastEnd.source ≠ [] := by decide
  have hCount : (Text.lines pastEnd.source).length = 3 := by
    decide
  rcases snippet_shows pastEnd Word.largest.toNat hLines with
    ⟨shown, column, first, last, hRead, hNumbers, hShown, -,
      hLine, -, hWords⟩
  rw [hCount] at hLine
  have hBounds := hLine 5 rfl
  have hLargest : 3 ≤ Word.largest.toNat := by decide
  have hFirst : first = 1 := by omega
  have hLast : last = 3 := by omega
  subst hFirst hLast
  refine ⟨hLines, shown, column, hRead, hNumbers, ?_, ?_⟩
  · intro one hOne
    rw [Bool.eq_false_iff]
    intro hMarked
    have hNumber : one.number = 5 :=
      (Option.some.inj ((hShown one hOne).2.mp hMarked)).symm
    have hMem : one.number ∈ shown.map ShownLine.number :=
      List.mem_map_of_mem hOne
    rw [hNumbers, hNumber] at hMem
    exact absurd hMem (by decide)
  · apply hWords
    · rw [hCount]
      decide
    · rfl
    · rfl

end ParseError

end Transclusion
