import Transclusion.Proofs.Yaml.Quoted
import Transclusion.Proofs.Yaml.ReachTokens

/-
  How far down the reading of a scalar gets.

  Key theorems include:
    * `Transclusion.Yaml.Scan.keeps_blockScalar`
    * `Transclusion.Yaml.Scan.keeps_quotedScalar`
    * `Transclusion.Yaml.Scan.keeps_plainScalar`

  A quoted scalar leaves its closing quote behind without
  another look, so the steps of its reading must not run out
  before that quote comes next.
-/

------------------------------------------------------------
-- Block Scalars
------------------------------------------------------------

namespace Transclusion

namespace Yaml

namespace Scan

variable {limit : Nat}
variable {cursor : Cursor}
variable (hCursor : cursor.IsWithin limit)

include hCursor

/- A chomping indicator is left behind. -/
theorem keeps_chomping? :
    Keeps (within limit) chomping? cursor
      fun _ _ => True := by
  unfold chomping?
  rw [keeps_peek]
  split
  · rename_i hFirst
    have hOne := (List.getElem?_eq_some_iff.mp hFirst).1
    apply (keeps_skip hCursor hOne).bind
    intro _ after hAfter _hRest
    exact keeps_pure hAfter trivial
  · rename_i hFirst
    have hOne := (List.getElem?_eq_some_iff.mp hFirst).1
    apply (keeps_skip hCursor hOne).bind
    intro _ after hAfter _hRest
    exact keeps_pure hAfter trivial
  · exact keeps_pure hCursor trivial

/- An indentation indicator is left behind. -/
theorem keeps_increment?
    (start : Mark) :
    Keeps (within limit) (increment? start) cursor
      fun _ _ => True := by
  unfold increment?
  rw [keeps_peek]
  split
  · exact keeps_pure hCursor trivial
  · rename_i digit hDigit
    rcases Option.bind_eq_some_iff.mp hDigit with
      ⟨c, hFirst, _hValue⟩
    have hOne := (List.getElem?_eq_some_iff.mp hFirst).1
    dsimp only
    split
    · exact keeps_fail_bind hCursor _ _ _
    · apply (keeps_skip hCursor hOne).bind
      intro _ after hAfter _hRest
      exact keeps_pure hAfter trivial

/- The indicators of a block scalar are left behind. -/
theorem keeps_blockHeader
    (start : Mark) :
    Keeps (within limit) (blockHeader start) cursor
      fun _ _ => True := by
  unfold blockHeader
  apply keeps_ensure_bind hCursor
  apply (keeps_chomping? hCursor).bind
  intro chomping after hAfter _
  split
  · apply keeps_ensure_bind hAfter
    apply (keeps_increment? hAfter start).bind
    intro increment after hAfter _
    exact keeps_pure hAfter trivial
  · apply (keeps_increment? hAfter start).bind
    intro increment after hAfter _
    split
    · apply keeps_ensure_bind hAfter
      apply (keeps_chomping? hAfter).bind
      intro chomping after hAfter _
      exact keeps_pure hAfter trivial
    · exact keeps_pure hAfter trivial

/- Blank lines end within the lines. -/
theorem keeps_blockGap
    {stop : Mark}
    (hStop : stop.IsWithin limit)
    (indent : Nat)
    (start : Mark)
    (fuel widest : Nat) :
    Keeps (within limit)
      (blockGap indent start fuel widest stop) cursor
      fun gap _ => gap.2.2.IsWithin limit := by
  induction fuel generalizing cursor widest stop with
  | zero => exact keeps_pure hCursor hStop
  | succ fuel ih =>
      unfold blockGap
      apply keeps_ensure_bind hCursor
      rw [keeps_mark, keeps_get]
      dsimp only
      have hSpaces :
          (cursor.rest.takeWhile (· == ' ')).length ≤
            cursor.rest.length :=
        (List.takeWhile_sublist _).length_le
      have hCount :
          (if indent = 0 then
              (cursor.rest.takeWhile (· == ' ')).length
            else
              min (cursor.rest.takeWhile (· == ' ')).length
                (indent - cursor.mark.column)) ≤
            cursor.rest.length := by
        split
        · exact hSpaces
        · exact Nat.le_trans (Nat.min_le_left _ _) hSpaces
      apply (keeps_skip hCursor hCount).bind
      intro _ after hAfter _hRest
      apply keeps_ensure_bind hAfter
      rw [keeps_mark, keeps_peek]
      split
      · exact keeps_fail_bind hAfter _ _ _
      · split
        · apply keeps_ensure_bind hAfter
          apply (keeps_lineBreak hAfter).bind
          intro line after hAfter _
          rw [keeps_mark]
          apply (ih hAfter hAfter.mark _).bind
          intro gap after hAfter hGap
          exact keeps_pure hAfter hGap
        · exact keeps_pure hAfter hStop

/- A gap between blocks ends within the lines. -/
theorem keeps_blockIndent
    (parent : Int)
    (indent : Nat)
    (start : Mark) :
    Keeps (within limit)
      (blockIndent parent indent start) cursor
      fun gap _ => gap.stop.IsWithin limit := by
  unfold blockIndent
  rw [keeps_fuel, keeps_mark]
  apply
    (keeps_blockGap hCursor hCursor.mark indent start _ 0).bind
  intro gap after hAfter hGap
  exact keeps_pure hAfter hGap

/- The lines of a block scalar end within the lines. -/
theorem keeps_blockLines
    {gap : BlockGap}
    (hGap : gap.stop.IsWithin limit)
    (parent : Int)
    (folded : Bool)
    (chomping : Chomping)
    (start : Mark)
    (fuel : Nat)
    (ending : List Char)
    (wasWhite : Bool) :
    Keeps (within limit)
      (blockLines parent folded chomping start fuel ending gap
        wasWhite)
      cursor fun block _ => block.2.IsWithin limit := by
  induction fuel
      generalizing cursor gap ending wasWhite with
  | zero => exact keeps_pure hCursor hGap
  | succ fuel ih =>
      unfold blockLines
      rw [keeps_peek, keeps_mark]
      split
      · cases chomping with
        | strip => exact keeps_pure hCursor hGap
        | clip => exact keeps_pure hCursor hGap
        | keep => exact keeps_pure hCursor hGap
      · dsimp only
        apply (keeps_span hCursor _).bind
        intro line after hAfter _
        apply keeps_ensure_bind hAfter
        apply (keeps_lineBreak hAfter).bind
        intro lineEnd after hAfter _
        apply (keeps_blockIndent hAfter parent _ start).bind
        intro gap' after hAfter hGap'
        apply (ih hAfter hGap' _ _).bind
        intro block after hAfter hBlock
        exact keeps_pure hAfter hBlock

/- A block scalar is within the lines. -/
theorem keeps_blockScalar
    (hFirst : 1 ≤ cursor.rest.length)
    (parent : Int)
    (folded : Bool) :
    Keeps (within limit) (blockScalar parent folded) cursor
      fun token _ => token.IsWithin limit := by
  have hStart := hCursor.mark
  unfold blockScalar
  rw [keeps_mark]
  apply (keeps_skip hCursor hFirst).bind
  intro _ after hAfter _hRest
  apply (keeps_blockHeader hAfter _).bind
  intro header after hAfter _
  apply keeps_ensure_bind hAfter
  apply (keeps_skipWhite hAfter).bind
  intro _ after hAfter _
  apply (keeps_skipComment hAfter).bind
  intro _ after hAfter _
  rw [keeps_peek]
  dsimp only
  split
  · exact keeps_fail_bind hAfter _ _ _
  · apply keeps_ensure_bind hAfter
    apply (keeps_lineBreak hAfter).bind
    intro _ after hAfter _
    apply (keeps_blockIndent hAfter parent _ _).bind
    intro gap after hAfter hGap
    apply keeps_ensure_bind hAfter
    rw [keeps_fuel]
    apply
      (keeps_blockLines hAfter hGap parent folded _ _ _ _
        _).bind
    intro block after hAfter hBlock
    exact keeps_pure hAfter ⟨hStart, hBlock⟩

end Scan

end Yaml

end Transclusion

------------------------------------------------------------
-- Gaps
------------------------------------------------------------

namespace Transclusion

namespace Yaml

namespace Scan

variable {limit : Nat}
variable {cursor : Cursor}

/-
  Blanks and breaks are left behind.  Less is left if one of
  them comes next.
-/
theorem keeps_fold
    (hCursor : cursor.IsWithin limit)
    (tabLimit : Nat)
    (start : Mark)
    (fuel : Nat)
    (taken : Fold) :
    Keeps (within limit)
      (fold tabLimit start fuel taken) cursor
      fun _ after =>
        after.rest.length ≤ cursor.rest.length ∧
          (0 < fuel →
            (cursor.rest[0]?.any fun c =>
                isWhite c || isBreak c) = true →
              after.rest.length < cursor.rest.length) := by
  induction fuel generalizing cursor taken with
  | zero =>
      refine keeps_pure hCursor ⟨Nat.le_refl _, ?_⟩
      intro hSome
      cases hSome
  | succ fuel ih =>
      unfold fold
      rw [keeps_peek]
      split
      · rename_i hFirst
        refine keeps_pure hCursor ⟨Nat.le_refl _, ?_⟩
        rw [hFirst]
        intro _ hAny
        cases hAny
      · rename_i c hFirst
        have hOne := (List.getElem?_eq_some_iff.mp hFirst).1
        split
        · rw [keeps_mark]
          dsimp only
          split
          · exact keeps_fail_bind hCursor _ _ _
          · apply (keeps_skip hCursor hOne).bind
            intro _ after hAfter hRest
            apply keeps_ensure_bind hAfter
            apply (ih hAfter _).imp
            rintro _ final ⟨hFinal, _hMore⟩
            rw [hRest, List.length_drop] at hFinal
            exact ⟨by omega, fun _ _ => by omega⟩
        · split
          · rename_i hBreak
            have hAny : cursor.rest[0]?.any isBreak = true := by
              rw [hFirst]
              exact hBreak
            apply keeps_ensure_bind hCursor
            apply (keeps_lineBreak hCursor).bind
            rintro line after hAfter ⟨_hLe, hLess⟩
            apply keeps_ensure_bind hAfter
            apply (ih hAfter _).imp
            rintro _ final ⟨hFinal, _hMore⟩
            have hLine := hLess hAny
            exact ⟨by omega, fun _ _ => by omega⟩
          · rename_i hWhite hBreak
            refine keeps_pure hCursor ⟨Nat.le_refl _, ?_⟩
            rw [hFirst]
            intro _ hAny
            simp [hWhite, hBreak] at hAny

end Scan

end Yaml

end Transclusion

------------------------------------------------------------
-- Quoted Scalars
------------------------------------------------------------

namespace Transclusion

namespace Yaml

namespace Scan

/- A place where no character of a quoted scalar comes next. -/
def StopsQuoted
    (single : Bool)
    (cursor : Cursor) : Prop :=
  ∀ c, cursor.rest[0]? = some c →
    isWhite c = true ∨ isBreak c = true ∨
      c = quoteChar single

/-
  What is left by characters of a quoted scalar: less, unless
  none came next.
-/
structure LeavesQuoted
    (single : Bool)
    (fuel : Nat)
    (before after : Cursor) : Prop where
  length : after.rest.length ≤ before.rest.length
  stops :
    0 < fuel →
      after.rest.length < before.rest.length ∨
        after = before ∧ StopsQuoted single before

variable {limit : Nat}
variable {cursor : Cursor}
variable (hCursor : cursor.IsWithin limit)
variable (start : Mark)

include hCursor

/- The digits of an escape are there. -/
theorem keeps_hexAhead
    (count : Nat) :
    Keeps (within limit) (hexAhead start count) cursor
      fun _ after =>
        after = cursor ∧ count ≤ cursor.rest.length := by
  unfold hexAhead
  apply keeps_ensure_bind hCursor
  rw [keeps_get]
  dsimp only
  split
  · exact keeps_fail hCursor _ _ _
  · rename_i values hValues
    split
    · exact keeps_fail_bind hCursor _ _ _
    · rename_i hEnough
      have hLength := length_of_mapM hValues
      rw [List.length_take] at hLength
      exact keeps_pure hCursor ⟨rfl, by omega⟩

/- An escape is left behind. -/
theorem keeps_escaped :
    Keeps (within limit) (escaped start) cursor
      fun _ after =>
        after.rest.length < cursor.rest.length := by
  have hLength
      {escape : Escape}
      (hLetter :
        cursor.rest[1]?.bind Escape.ofLetter? =
          some escape) :
      2 ≤ cursor.rest.length := by
    rcases Option.bind_eq_some_iff.mp hLetter with
      ⟨letter, hSecond, _hEscape⟩
    exact (List.getElem?_eq_some_iff.mp hSecond).1
  unfold escaped
  rw [keeps_peekAt]
  split
  · exact keeps_fail hCursor _ _ _
  · rename_i c hLetter
    have hTwo := hLength hLetter
    apply (keeps_skip hCursor hTwo).bind
    intro _ after hAfter hRest
    refine keeps_pure hAfter ?_
    rw [hRest, List.length_drop]
    omega
  · rename_i digits hLetter
    have hTwo := hLength hLetter
    apply (keeps_skip hCursor hTwo).bind
    intro _ after hAfter hRest
    apply (keeps_hexAhead hAfter start digits).bind
    rintro code _ hAfter ⟨rfl, hDigits⟩
    dsimp only
    split
    · exact keeps_fail_bind hAfter _ _ _
    · apply (keeps_skip hAfter hDigits).bind
      intro _ final hFinal hLast
      refine keeps_pure hFinal ?_
      rw [hLast, hRest, List.length_drop, List.length_drop]
      omega

/- Characters of a quoted scalar are left behind. -/
theorem keeps_quotedChars
    (single : Bool)
    (fuel : Nat) :
    Keeps (within limit)
      (quotedChars single start fuel) cursor
      fun _ => LeavesQuoted single fuel cursor := by
  induction fuel generalizing cursor with
  | zero =>
      refine keeps_pure hCursor ⟨Nat.le_refl _, ?_⟩
      intro hSome
      cases hSome
  | succ fuel ih =>
      have hStop
          (hStops : StopsQuoted single cursor) :
          Keeps (within limit) (pure ([], false)) cursor
            fun (_ : List Char × Bool) =>
              LeavesQuoted single (fuel + 1) cursor :=
        keeps_pure hCursor
          ⟨Nat.le_refl _, fun _ => .inr ⟨rfl, hStops⟩⟩
      have hMore
          (d : Char)
          {after : Cursor}
          (hAfter : after.IsWithin limit)
          (hLess :
            after.rest.length < cursor.rest.length) :
          Keeps (within limit)
            (do
              ensure 2
              let read ← quotedChars single start fuel
              return (d :: read.1, read.2))
            after
            fun (_ : List Char × Bool) =>
              LeavesQuoted single (fuel + 1) cursor := by
        apply keeps_ensure_bind hAfter
        apply (ih hAfter).bind
        rintro chars final hFinal ⟨hLe, _hStops⟩
        refine keeps_pure hFinal ⟨by omega, fun _ => ?_⟩
        exact .inl (by omega)
      unfold quotedChars
      rw [keeps_peek, keeps_peekAt]
      dsimp only
      split
      · rename_i hFirst
        apply hStop
        intro c hNext
        rw [hFirst] at hNext
        cases hNext
      · rename_i c hFirst
        have hOne := (List.getElem?_eq_some_iff.mp hFirst).1
        have hStops
            (hC :
              isWhite c = true ∨ isBreak c = true ∨
                c = quoteChar single) :
            StopsQuoted single cursor := by
          intro d hNext
          rw [hFirst] at hNext
          cases hNext
          exact hC
        split
        · rename_i hGap
          rw [Bool.or_eq_true] at hGap
          exact hStop (hStops (hGap.imp_right .inl))
        · have hQuoteChar :
              (if single then '\'' else '"') =
                quoteChar single :=
            rfl
          rw [hQuoteChar]
          split
          · rename_i hDoubled
            have hTwo : 2 ≤ cursor.rest.length := by
              simp only [Bool.and_eq_true, beq_iff_eq]
                at hDoubled
              exact
                (List.getElem?_eq_some_iff.mp hDoubled.2).1
            apply (keeps_skip hCursor hTwo).bind
            intro _ after hAfter hRest
            apply hMore _ hAfter
            rw [hRest, List.length_drop]
            omega
          · split
            · rename_i hQuote
              rw [beq_iff_eq] at hQuote
              exact hStop (hStops (.inr (.inr hQuote)))
            · split
              · apply keeps_ensure_bind hCursor
                apply (keeps_skip hCursor hOne).bind
                intro _ after hAfter hRest
                apply (keeps_lineBreak hAfter).bind
                rintro _ final hFinal ⟨hLe, _hLess⟩
                rw [hRest, List.length_drop] at hLe
                refine
                  keeps_pure hFinal ⟨by omega, fun _ => ?_⟩
                exact .inl (by omega)
              · split
                · apply (keeps_escaped hCursor start).bind
                  intro d after hAfter hLess
                  exact hMore d hAfter hLess
                · apply (keeps_skip hCursor hOne).bind
                  intro _ after hAfter hRest
                  apply hMore _ hAfter
                  rw [hRest, List.length_drop]
                  omega

/-
  The closing quote comes next behind the parts of a quoted
  scalar.  Each part but the last leaves something behind, so
  the steps do not run out.
-/
theorem keeps_quotedParts
    (single : Bool)
    {fuel : Nat}
    (hFuel : cursor.rest.length < fuel) :
    Keeps (within limit)
      (quotedParts single start fuel) cursor
      fun _ after => 1 ≤ after.rest.length := by
  induction fuel generalizing cursor with
  | zero => cases hFuel
  | succ fuel ih =>
      unfold quotedParts
      apply keeps_ensure_bind hCursor
      apply keeps_atDocumentIndicator
      intro found
      dsimp only
      split
      · exact keeps_fail_bind hCursor _ _ _
      · rw [keeps_peek]
        split
        · exact keeps_fail_bind hCursor _ _ _
        · rename_i hSome
          apply keeps_ensure_bind hCursor
          rw [keeps_fuel]
          apply (keeps_quotedChars hCursor start single _).bind
          rintro chars after hAfter ⟨hLe, hStops⟩
          apply keeps_ensure_bind hAfter
          rw [keeps_nextIs]
          have hQuoteChar :
              (if single then '\'' else '"') =
                quoteChar single :=
            rfl
          rw [hQuoteChar]
          split
          · rename_i hQuote
            exact keeps_pure hAfter (length_of_nextIs hQuote)
          · rename_i hQuote
            rw [keeps_fuel]
            apply (keeps_fold hAfter 0 start _ _).bind
            rintro gap final hFinal ⟨hGap, hLess⟩
            have hShorter :
                final.rest.length < cursor.rest.length := by
              rcases hStops (Nat.succ_pos _) with
                hAfter | ⟨rfl, hStopped⟩
              · omega
              · rcases Option.ne_none_iff_exists'.mp
                    (mt Option.isNone_iff_eq_none.mpr hSome)
                  with ⟨c, hFirst⟩
                apply hLess (Nat.succ_pos _)
                rw [hFirst]
                rcases hStopped c hFirst with
                  hWhite | hBreak | rfl
                · simp [hWhite]
                · simp [hBreak]
                · exact absurd (beq_iff_eq.mpr hFirst) hQuote
            apply (ih hFinal (by omega)).bind
            intro rest last hLast hOne
            exact keeps_pure hLast hOne

/- A quoted scalar is within the lines. -/
theorem keeps_quotedScalar
    (hFirst : 1 ≤ cursor.rest.length)
    (single : Bool) :
    Keeps (within limit) (quotedScalar single) cursor
      fun token _ => token.IsWithin limit := by
  have hStart := hCursor.mark
  unfold quotedScalar
  rw [keeps_mark]
  apply (keeps_skip hCursor hFirst).bind
  intro _ after hAfter _hRest
  rw [keeps_fuel]
  have hFuel : after.rest.length < after.size + 1 :=
    Nat.lt_succ_of_le hAfter.rest
  apply (keeps_quotedParts hAfter _ single hFuel).bind
  intro text final hFinal hOne
  apply (keeps_skip hFinal hOne).bind
  intro _ last hLast _hRest
  rw [keeps_mark]
  exact keeps_pure hLast ⟨hStart, hLast.mark⟩

end Scan

end Yaml

end Transclusion

------------------------------------------------------------
-- Plain Scalars
------------------------------------------------------------

namespace Transclusion

namespace Yaml

namespace Scan

variable {limit : Nat}
variable {cursor : Cursor}
variable (hCursor : cursor.IsWithin limit)

include hCursor

/- Characters of a plain scalar are left behind. -/
theorem keeps_plainChars
    (inFlow : Bool)
    (start : Mark)
    (fuel : Nat) :
    Keeps (within limit) (plainChars inFlow start fuel) cursor
      fun _ _ => True := by
  induction fuel generalizing cursor with
  | zero => exact keeps_pure hCursor trivial
  | succ fuel ih =>
      unfold plainChars
      rw [keeps_peek, keeps_peekAt]
      split
      · exact keeps_pure hCursor trivial
      · rename_i c hFirst
        have hOne := (List.getElem?_eq_some_iff.mp hFirst).1
        split
        · exact keeps_pure hCursor trivial
        · split
          · exact keeps_fail hCursor _ _ _
          · split
            · exact keeps_pure hCursor trivial
            · apply (keeps_skip hCursor hOne).bind
              intro _ after hAfter _hRest
              apply keeps_ensure_bind hAfter
              apply (ih hAfter).bind
              intro more final hFinal _
              exact keeps_pure hFinal trivial

/- The parts of a plain scalar end within the lines. -/
theorem keeps_plainParts
    {stop : Mark}
    (hStop : stop.IsWithin limit)
    (inFlow : Bool)
    (indent : Nat)
    (start : Mark)
    (fuel : Nat)
    (gap : Fold) :
    Keeps (within limit)
      (plainParts inFlow indent start fuel gap stop) cursor
      fun parts _ => parts.2.1.IsWithin limit := by
  induction fuel generalizing cursor gap stop with
  | zero => exact keeps_pure hCursor hStop
  | succ fuel ih =>
      unfold plainParts
      apply keeps_ensure_bind hCursor
      apply keeps_atDocumentIndicator
      intro found
      rw [keeps_nextIs]
      split
      · exact keeps_pure hCursor hStop
      · rw [keeps_fuel]
        apply (keeps_plainChars hCursor inFlow start _).bind
        intro chars after hAfter _
        split
        · exact keeps_pure hAfter hStop
        · rw [keeps_mark, keeps_peek]
          dsimp only
          split
          · exact keeps_pure hAfter hAfter.mark
          · rw [keeps_fuel]
            apply (keeps_fold hAfter indent start _ _).bind
            intro fold final hFinal _
            rw [keeps_mark]
            split
            · exact keeps_pure hFinal hAfter.mark
            · apply (ih hFinal hAfter.mark _).bind
              intro parts last hLast hParts
              exact keeps_pure hLast hParts

/- A plain scalar is within the lines. -/
theorem keeps_plainScalar
    (parent : Int)
    (inFlow : Bool) :
    Keeps (within limit) (plainScalar parent inFlow) cursor
      fun result _ => result.1.IsWithin limit := by
  have hStart := hCursor.mark
  unfold plainScalar
  rw [keeps_mark, keeps_fuel]
  apply
    (keeps_plainParts hCursor hStart inFlow _ _ _ _).bind
  intro parts after hAfter hParts
  exact keeps_pure hAfter ⟨hStart, hParts⟩

end Scan

end Yaml

end Transclusion
