import Transclusion.Proofs.Yaml.Reach

/-
  How far down the reading of a token gets.

  Key definitions include:
    * `Transclusion.Yaml.Token.IsWithin`

  Key theorems include:
    * `Transclusion.Yaml.Scan.keeps_tag`
    * `Transclusion.Yaml.Scan.keeps_anchor`
    * `Transclusion.Yaml.Scan.keeps_directive`

  What is left behind without a look has been looked at
  before: a character that comes next, or as many of them as
  an escape needs.
-/

------------------------------------------------------------
-- Marks of Tokens
------------------------------------------------------------

namespace Transclusion

namespace Yaml

/- A token between marks that are within so many lines. -/
structure Token.IsWithin
    (token : Token)
    (limit : Nat) : Prop where
  start : token.start.IsWithin limit
  stop : token.stop.IsWithin limit

end Yaml

end Transclusion

------------------------------------------------------------
-- Tags
------------------------------------------------------------

namespace Transclusion

namespace Yaml

namespace Scan

variable {limit : Nat}
variable {cursor : Cursor}
variable (hCursor : cursor.IsWithin limit)
variable (activity : Activity)
variable (start : Mark)

include hCursor

/- An escaped octet is three characters that are there. -/
theorem keeps_uriOctet :
    Keeps (within limit) (uriOctet activity start) cursor
      fun _ after =>
        after = cursor ∧ 3 ≤ cursor.rest.length := by
  unfold uriOctet
  apply keeps_ensure_bind hCursor
  simp only [keeps_peekAt, keeps_peek]
  split
  · rename_i high low hFirst hHigh hLow
    rcases Option.bind_eq_some_iff.mp hLow with
      ⟨third, hThird, _hValue⟩
    have hLength := (List.getElem?_eq_some_iff.mp hThird).1
    exact keeps_pure hCursor ⟨rfl, hLength⟩
  · exact keeps_fail hCursor _ _ _

/- The trailing octets are left behind. -/
theorem keeps_uriTrailing
    (count : Nat) :
    Keeps (within limit)
      (uriTrailing activity start count) cursor
      fun _ _ => True := by
  induction count generalizing cursor with
  | zero => exact keeps_pure hCursor trivial
  | succ count ih =>
      unfold uriTrailing
      apply (keeps_uriOctet hCursor activity start).bind
      rintro octet _ hAfter ⟨rfl, hLength⟩
      simp only
      split
      · exact keeps_fail_bind hAfter _ _ _
      · apply (keeps_skip hAfter hLength).bind
        intro _ after hAfter _hRest
        apply (ih hAfter).bind
        intro more _ hAfter _
        exact keeps_pure hAfter trivial

/- An escaped character is left behind. -/
theorem keeps_uriEscape :
    Keeps (within limit) (uriEscape activity start) cursor
      fun _ _ => True := by
  unfold uriEscape
  apply (keeps_uriOctet hCursor activity start).bind
  rintro octet _ hAfter ⟨rfl, hLength⟩
  split
  · exact keeps_fail hAfter _ _ _
  · apply (keeps_skip hAfter hLength).bind
    intro _ after hAfter _hRest
    apply (keeps_uriTrailing hAfter activity start _).bind
    intro more _ hAfter _
    exact keeps_pure hAfter trivial

/- The pieces of a tag are left behind. -/
theorem keeps_uriPieces
    (verbatim : Bool)
    (fuel : Nat) :
    Keeps (within limit)
      (uriPieces verbatim activity start fuel) cursor
      fun _ _ => True := by
  induction fuel generalizing cursor with
  | zero => exact keeps_pure hCursor trivial
  | succ fuel ih =>
      unfold uriPieces
      rw [keeps_peek]
      split
      · exact keeps_pure hCursor trivial
      · rename_i c hFirst
        split
        · exact keeps_pure hCursor trivial
        · have hRest
              (piece : TagText)
              {after : Cursor}
              (hAfter : after.IsWithin limit) :
              Keeps (within limit)
                (do
                  ensure 1
                  let more ←
                    uriPieces verbatim activity start fuel
                  return piece :: more)
                after fun _ _ => True := by
            apply keeps_ensure_bind hAfter
            apply (ih hAfter).bind
            intro more _ hAfter _
            exact keeps_pure hAfter trivial
          dsimp only
          split
          · apply (keeps_uriEscape hCursor _ _).bind
            intro piece _ hAfter _
            exact hRest piece hAfter
          · have hOne := (List.getElem?_eq_some_iff.mp hFirst).1
            apply (keeps_skip hCursor hOne).bind
            intro _ after hAfter _hRest
            exact hRest _ hAfter

/- A tag is left behind. -/
theorem keeps_uri
    (verbatim : Bool)
    (lead : List Char) :
    Keeps (within limit)
      (uri verbatim lead activity start) cursor
      fun _ _ => True := by
  unfold uri
  apply keeps_ensure_bind hCursor
  rw [keeps_fuel]
  apply (keeps_uriPieces hCursor activity start _ _).bind
  intro pieces _ hAfter _
  simp only
  split
  · exact keeps_fail_bind hAfter _ _ _
  · exact keeps_pure hAfter trivial

omit hCursor in
/- A character that comes next is there. -/
theorem length_of_nextIs
    {c : Char}
    {text : List Char}
    (hNext : (text[0]? == some c) = true) :
    1 ≤ text.length := by
  rw [beq_iff_eq] at hNext
  exact (List.getElem?_eq_some_iff.mp hNext).1

/- The handle of a tag is left behind. -/
theorem keeps_tagHandle
    (inDirective : Bool) :
    Keeps (within limit) (tagHandle inDirective start) cursor
      fun _ _ => True := by
  unfold tagHandle
  apply keeps_ensure_bind hCursor
  rw [keeps_nextIs]
  dsimp only
  split
  · exact keeps_fail_bind hCursor _ _ _
  · rename_i hMark
    rw [Bool.not_eq_true', Bool.not_eq_false] at hMark
    apply (keeps_skip hCursor (length_of_nextIs hMark)).bind
    intro _ after hAfter _hRest
    apply keeps_ensure_bind hAfter
    apply (keeps_span hAfter isWord).bind
    intro name after hAfter _
    rw [keeps_nextIs]
    split
    · rename_i hEnd
      apply (keeps_skip hAfter (length_of_nextIs hEnd)).bind
      intro _ after hAfter _hRest
      exact keeps_pure hAfter trivial
    · split
      · exact keeps_fail hAfter _ _ _
      · exact keeps_pure hAfter trivial

/- A tag between brackets is left behind. -/
theorem keeps_verbatimTag
    (hLength : 2 ≤ cursor.rest.length) :
    Keeps (within limit) (verbatimTag start) cursor
      fun _ _ => True := by
  unfold verbatimTag
  apply (keeps_skip hCursor hLength).bind
  intro _ after hAfter _hRest
  apply (keeps_uri hAfter .tagUri start true []).bind
  intro suffix after hAfter _
  rw [keeps_nextIs]
  dsimp only
  split
  · exact keeps_fail_bind hAfter _ _ _
  · rename_i hEnd
    rw [Bool.not_eq_true', Bool.not_eq_false] at hEnd
    apply (keeps_skip hAfter (length_of_nextIs hEnd)).bind
    intro _ after hAfter _hRest
    exact keeps_pure hAfter trivial

/- A tag with a handle is left behind. -/
theorem keeps_shorthandTag :
    Keeps (within limit) (shorthandTag start) cursor
      fun _ _ => True := by
  unfold shorthandTag
  apply (keeps_tagHandle hCursor start false).bind
  intro handle after hAfter _
  split
  · apply (keeps_uri hAfter .tagUri start false []).bind
    intro suffix after hAfter _
    exact keeps_pure hAfter trivial
  · apply (keeps_uri hAfter .tagUri start false handle).bind
    intro suffix after hAfter _
    split
    · exact keeps_pure hAfter trivial
    · exact keeps_pure hAfter trivial

/- A tag is within the lines. -/
theorem keeps_tag
    (inFlow : Bool) :
    Keeps (within limit) (tag inFlow) cursor
      fun token _ => token.IsWithin limit := by
  have hStart := hCursor.mark
  have hRest
      (kind : TokenKind)
      {after : Cursor}
      (hAfter : after.IsWithin limit) :
      Keeps (within limit)
        (do
          ensure 1
          let next ← peek
          if !isGap next && !(inFlow && next == some ',') then
            fail .blankOrBreakMissing .tag cursor.mark
          return (⟨kind, cursor.mark, ← mark⟩ : Token))
        after fun token _ => token.IsWithin limit := by
    apply keeps_ensure_bind hAfter
    rw [keeps_peek]
    dsimp only
    split
    · exact keeps_fail_bind hAfter _ _ _
    · rw [keeps_mark]
      exact keeps_pure hAfter ⟨hStart, hAfter.mark⟩
  unfold tag
  rw [keeps_mark]
  apply keeps_ensure_bind hCursor
  rw [keeps_peekAt]
  dsimp only
  split
  · rename_i hSecond
    have hLength := (List.getElem?_eq_some_iff.mp hSecond).1
    apply (keeps_verbatimTag hCursor _ hLength).bind
    intro kind after hAfter _
    exact hRest kind hAfter
  · apply (keeps_shorthandTag hCursor _).bind
    intro kind after hAfter _
    exact hRest kind hAfter

end Scan

end Yaml

end Transclusion

------------------------------------------------------------
-- Anchors
------------------------------------------------------------

namespace Transclusion

namespace Yaml

namespace Scan

variable {limit : Nat}
variable {cursor : Cursor}

/- An anchor is within the lines. -/
theorem keeps_anchor
    (hCursor : cursor.IsWithin limit)
    (hFirst : 1 ≤ cursor.rest.length)
    (isAlias : Bool) :
    Keeps (within limit) (anchor isAlias) cursor
      fun token _ => token.IsWithin limit := by
  unfold anchor
  rw [keeps_mark]
  apply (keeps_skip hCursor hFirst).bind
  intro _ after hAfter _hRest
  apply keeps_ensure_bind hAfter
  apply (keeps_span hAfter isWord).bind
  intro name after hAfter _
  rw [keeps_mark, keeps_peek]
  dsimp only
  split
  · exact keeps_fail_bind hAfter _ _ _
  · exact keeps_pure hAfter ⟨hCursor.mark, hAfter.mark⟩

end Scan

end Yaml

end Transclusion

------------------------------------------------------------
-- Directives
------------------------------------------------------------

namespace Transclusion

namespace Yaml

namespace Scan

variable {limit : Nat}
variable {cursor : Cursor}
variable (hCursor : cursor.IsWithin limit)

include hCursor

/- The number of a version is left behind. -/
theorem keeps_versionNumber
    (start : Mark)
    (fuel length value : Nat) :
    Keeps (within limit)
      (versionNumber start fuel length value) cursor
      fun _ _ => True := by
  induction fuel generalizing cursor length value with
  | zero => exact keeps_pure hCursor trivial
  | succ fuel ih =>
      unfold versionNumber
      rw [keeps_peek]
      split
      · rename_i digit hDigit
        rcases Option.bind_eq_some_iff.mp hDigit with
          ⟨c, hFirst, _hValue⟩
        have hOne := (List.getElem?_eq_some_iff.mp hFirst).1
        dsimp only
        split
        · exact keeps_fail_bind hCursor _ _ _
        · apply (keeps_skip hCursor hOne).bind
          intro _ after hAfter _hRest
          apply keeps_ensure_bind hAfter
          exact ih hAfter _ _
      · dsimp only
        split
        · exact keeps_fail_bind hCursor _ _ _
        · exact keeps_pure hCursor trivial

/- The version of a directive is left behind. -/
theorem keeps_versionDirective
    (start : Mark) :
    Keeps (within limit) (versionDirective start) cursor
      fun _ _ => True := by
  unfold versionDirective
  apply keeps_ensure_bind hCursor
  apply (keeps_skipWhite hCursor).bind
  intro _ after hAfter _
  apply (keeps_versionNumber hAfter start 11 0 0).bind
  intro major after hAfter _
  rw [keeps_nextIs]
  dsimp only
  split
  · exact keeps_fail_bind hAfter _ _ _
  · rename_i hPoint
    rw [Bool.not_eq_true', Bool.not_eq_false] at hPoint
    apply (keeps_skip hAfter (length_of_nextIs hPoint)).bind
    intro _ after hAfter _hRest
    apply keeps_ensure_bind hAfter
    apply (keeps_versionNumber hAfter start 11 0 0).bind
    intro minor after hAfter _
    exact keeps_pure hAfter trivial

/- The handle of a directive is left behind. -/
theorem keeps_tagDirective
    (start : Mark) :
    Keeps (within limit) (tagDirective start) cursor
      fun _ _ => True := by
  unfold tagDirective
  apply keeps_ensure_bind hCursor
  apply (keeps_skipWhite hCursor).bind
  intro _ after hAfter _
  apply (keeps_tagHandle hAfter start true).bind
  intro handle after hAfter _
  apply keeps_ensure_bind hAfter
  rw [keeps_peek]
  dsimp only
  split
  · exact keeps_fail_bind hAfter _ _ _
  · apply (keeps_skipWhite hAfter).bind
    intro _ after hAfter _
    apply
      (keeps_uri hAfter .tagDirectiveUri start true []).bind
    intro lead after hAfter _
    apply keeps_ensure_bind hAfter
    rw [keeps_peek]
    split
    · exact keeps_fail_bind hAfter _ _ _
    · exact keeps_pure hAfter trivial

/- A directive is within the lines. -/
theorem keeps_directive
    (hFirst : 1 ≤ cursor.rest.length) :
    Keeps (within limit) directive cursor
      fun token _ => token.IsWithin limit := by
  have hRest
      (kind : TokenKind)
      {after : Cursor}
      (hAfter : after.IsWithin limit) :
      Keeps (within limit)
        (do
          let stop ← mark
          ensure 1
          skipWhite
          skipComment
          if !isLineEnd (← peek) then
            fail .lineNotEnded .directive cursor.mark
          ensure 2
          let _ ← lineBreak
          return (⟨kind, cursor.mark, stop⟩ : Token))
        after fun token _ => token.IsWithin limit := by
    have hToken : Token.IsWithin
        ⟨kind, cursor.mark, after.mark⟩ limit :=
      ⟨hCursor.mark, hAfter.mark⟩
    rw [keeps_mark]
    apply keeps_ensure_bind hAfter
    apply (keeps_skipWhite hAfter).bind
    intro _ after hAfter _
    apply (keeps_skipComment hAfter).bind
    intro _ after hAfter _
    rw [keeps_peek]
    dsimp only
    split
    · exact keeps_fail_bind hAfter _ _ _
    · apply keeps_ensure_bind hAfter
      apply (keeps_lineBreak hAfter).bind
      intro _ after hAfter _
      exact keeps_pure hAfter hToken
  unfold directive
  rw [keeps_mark]
  apply (keeps_skip hCursor hFirst).bind
  intro _ after hAfter _hRest
  apply keeps_ensure_bind hAfter
  apply (keeps_span hAfter isWord).bind
  intro name after hAfter _
  dsimp only
  split
  · exact keeps_fail_bind hAfter _ _ _
  · rw [keeps_peek]
    split
    · exact keeps_fail_bind hAfter _ _ _
    · split
      · apply (keeps_versionDirective hAfter _).bind
        intro kind after hAfter _
        exact hRest kind hAfter
      · split
        · apply (keeps_tagDirective hAfter _).bind
          intro kind after hAfter _
          exact hRest kind hAfter
        · exact keeps_fail_bind hAfter _ _ _

end Scan

end Yaml

end Transclusion
