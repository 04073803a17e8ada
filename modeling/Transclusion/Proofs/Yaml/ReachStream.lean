import Transclusion.Proofs.Yaml.Lexing
import Transclusion.Proofs.Yaml.ReachScalars

/-
  How far down the tokens of a text get.

  Key definitions include:
    * `Transclusion.Yaml.Lexer.IsWithin`
    * `Transclusion.Yaml.Lex.within`

  Key theorems include:
    * `Transclusion.Yaml.Lex.keeps_streamEnd`
    * `Transclusion.Yaml.Lex.keeps_fetch`
    * `Transclusion.Yaml.TokenStream.isWithin_ofText`

  Only the end of the stream begins a line by itself, and it
  does so where a last line has been started but not ended.
-/

------------------------------------------------------------
-- Lexers
------------------------------------------------------------

namespace Transclusion

namespace Yaml

/- A lexer all of whose marks are within so many lines. -/
structure Lexer.IsWithin
    (lexer : Lexer)
    (limit : Nat) : Prop where
  cursor : lexer.cursor.IsWithin limit
  tokens : ∀ token ∈ lexer.tokens, token.IsWithin limit
  keys :
    ∀ pending, some pending ∈ lexer.keys →
      pending.mark.IsWithin limit

namespace Lex

variable {α β : Type}
variable {limit : Nat}
variable {lexer : Lexer}
variable {final : β → Lexer → Prop}

/-
  A lexer stays within so many lines, and what is at fault
  is within them too.
-/
@[reducible]
def within
    (limit : Nat) : Guard SyntaxError Lexer where
  kept lexer := lexer.IsWithin limit
  fault error := error.mark.IsWithin limit

/- A scan that only looks goes on where it is. -/
theorem keeps_scan_of_ok
    {reading : Scan α}
    {next : α → Lex β}
    {result : α}
    (hReading :
      reading lexer.cursor = .ok (result, lexer.cursor)) :
    Keeps (within limit) (scan reading >>= next) lexer final ↔
      Keeps (within limit) (next result) lexer final :=
  meets_bind_of_ok (scan_look hReading)

variable (hLexer : lexer.IsWithin limit)

include hLexer

/- A lexer stays within the lines as its cursor does. -/
theorem isWithin_withCursor
    {cursor : Cursor}
    (hCursor : cursor.IsWithin limit) :
    Lexer.IsWithin { lexer with cursor := cursor } limit :=
  ⟨hCursor, hLexer.tokens, hLexer.keys⟩

/- A scan moves the cursor within the lines. -/
theorem keeps_scan
    {reading : Scan α}
    {fine : α → Cursor → Prop}
    (hReading :
      Keeps (Scan.within limit) reading lexer.cursor fine) :
    Keeps (within limit) (scan reading) lexer
      fun result after =>
        after = { lexer with cursor := after.cursor } ∧
          fine result after.cursor := by
  refine (meets_scan hReading).imp ?_
  rintro result _ ⟨cursor, hCursor, rfl⟩
  exact
    ⟨isWithin_withCursor hLexer hCursor.1, rfl, hCursor.2⟩

/- What is ensured changes nothing. -/
theorem keeps_ensure_bind
    {next : Unit → Lex β}
    {count : Nat}
    (hNext : Keeps (within limit) (next ()) lexer final) :
    Keeps (within limit)
      (scan (Scan.ensure count) >>= next) lexer final := by
  apply
    (keeps_scan hLexer
      (Scan.keeps_ensure hLexer.cursor count)).bind
  rintro _ after _hAfter ⟨hSame, hCursor⟩
  rw [hSame, hCursor]
  exact hNext

/- A token within the lines is added. -/
theorem keeps_add
    {token : Token}
    (hToken : token.IsWithin limit) :
    Keeps (within limit) (add token) lexer
      fun _ after => after.cursor = lexer.cursor :=
  ⟨⟨hLexer.cursor,
      List.forall_mem_cons.mpr ⟨hToken, hLexer.tokens⟩,
      hLexer.keys⟩,
    rfl⟩

/- A token of characters that are there is added. -/
theorem keeps_addSkipping
    {count : Nat}
    (hCount : count ≤ lexer.cursor.rest.length)
    (kind : TokenKind) :
    Keeps (within limit) (addSkipping kind count) lexer
      fun _ _ => True := by
  have hStart := hLexer.cursor.mark
  unfold addSkipping
  rw [keeps_scan_of_ok rfl]
  apply
    (keeps_scan hLexer
      (Scan.keeps_skip hLexer.cursor hCount)).bind
  intro _ after hAfter _hRest
  rw [keeps_scan_of_ok rfl]
  exact (keeps_add hAfter ⟨hStart, hAfter.cursor.mark⟩).any

/- Keys can be allowed or not. -/
theorem keeps_allowKey
    (allowed : Bool) :
    Keeps (within limit) (allowKey allowed) lexer
      fun _ after => after.cursor = lexer.cursor :=
  ⟨⟨hLexer.cursor, hLexer.tokens, hLexer.keys⟩, rfl⟩

/- The innermost key can be replaced. -/
theorem keeps_replaceKey
    {key : Option PendingKey}
    (hKey : ∀ pending, key = some pending →
      pending.mark.IsWithin limit) :
    Keeps (within limit) (replaceKey key) lexer
      fun _ after => after.cursor = lexer.cursor := by
  refine ⟨⟨hLexer.cursor, hLexer.tokens, ?_⟩, rfl⟩
  intro pending hPending
  rcases List.mem_cons.mp hPending with hNew | hOld
  · exact hKey pending hNew.symm
  · exact hLexer.keys pending (List.mem_of_mem_tail hOld)

/- Keys are given up for others. -/
theorem keeps_giveUp
    {required : Option PendingKey}
    {keys : List (Option PendingKey)}
    (hKeys : ∀ pending, some pending ∈ keys →
      pending.mark.IsWithin limit) :
    Keeps (within limit) (giveUp required keys) lexer
      fun _ after => after.cursor = lexer.cursor := by
  unfold giveUp
  rw [keeps_get]
  cases required with
  | some pending => exact hLexer.cursor.mark
  | none => exact ⟨⟨hLexer.cursor, hLexer.tokens, hKeys⟩, rfl⟩

/- Keys that reach too far are given up. -/
theorem keeps_dropStale :
    Keeps (within limit) dropStale lexer
      fun _ after => after.cursor = lexer.cursor := by
  unfold dropStale
  rw [keeps_get]
  apply keeps_giveUp hLexer
  intro pending hPending
  rcases List.mem_map.mp hPending with ⟨key, hKey, hKept⟩
  rw [Option.filter_eq_some_iff] at hKept
  exact hLexer.keys pending (hKept.1 ▸ hKey)

/- The innermost key is given up. -/
theorem keeps_dropKey :
    Keeps (within limit) dropKey lexer
      fun _ after => after.cursor = lexer.cursor := by
  unfold dropKey
  rw [keeps_get]
  apply keeps_giveUp hLexer
  intro pending hPending
  have hKeys := hLexer.keys
  cases hAll : lexer.keys with
  | nil =>
      rw [hAll] at hPending
      cases hPending
  | cons key more =>
      rw [hAll, List.modifyHead_cons] at hPending
      rw [hAll] at hKeys
      rcases List.mem_cons.mp hPending with hNone | hMem
      · cases hNone
      · exact hKeys pending (List.mem_cons_of_mem _ hMem)

/- A key may begin at the cursor. -/
theorem keeps_saveKey :
    Keeps (within limit) saveKey lexer
      fun _ after => after.cursor = lexer.cursor := by
  have hMark := hLexer.cursor.mark
  unfold saveKey
  rw [keeps_get]
  split
  · apply (keeps_dropKey hLexer).bind
    intro _ after hAfter hCursor
    rw [← hCursor]
    apply keeps_replaceKey hAfter
    intro pending hPending
    cases hPending
    rw [hCursor]
    exact hMark
  · exact keeps_pure hLexer rfl

/- A token within the lines is put at a place. -/
theorem isWithin_insert
    {token : Token}
    (hToken : token.IsWithin limit)
    (number : Nat) :
    (lexer.insert number token).IsWithin limit := by
  refine ⟨hLexer.cursor, ?_, hLexer.keys⟩
  intro other hOther
  rcases List.mem_append.mp hOther with hAfter | hBefore
  · exact hLexer.tokens other (List.mem_of_mem_take hAfter)
  · rcases List.mem_cons.mp hBefore with rfl | hBefore
    · exact hToken
    · exact
        hLexer.tokens other (List.mem_of_mem_drop hBefore)

/- A collection is opened in front of a token. -/
theorem keeps_indentTo
    {mark : Mark}
    (hMark : mark.IsWithin limit)
    (column number : Nat)
    (kind : TokenKind) :
    Keeps (within limit)
      (indentTo column number kind mark) lexer
      fun _ after => after.cursor = lexer.cursor := by
  unfold indentTo
  rw [keeps_get]
  split
  · have hIndented :
        Lexer.IsWithin
          { lexer with
            indent := column
            indents := lexer.indent :: lexer.indents }
          limit :=
      ⟨hLexer.cursor, hLexer.tokens, hLexer.keys⟩
    exact
      ⟨isWithin_insert hIndented ⟨hMark, hMark⟩ number, rfl⟩
  · exact keeps_pure hLexer rfl

/- Collections are closed. -/
theorem keeps_closeTo
    {mark : Mark}
    (hMark : mark.IsWithin limit)
    (column : Int)
    (indents : List Int) :
    Keeps (within limit) (closeTo column mark indents) lexer
      fun _ after => after.cursor = lexer.cursor := by
  induction indents generalizing lexer with
  | nil => exact keeps_pure hLexer rfl
  | cons outer more ih =>
      unfold closeTo
      rw [keeps_get]
      split
      · have hOuter :
            Lexer.IsWithin
              { lexer with indent := outer, indents := more }
              limit :=
          ⟨hLexer.cursor, hLexer.tokens, hLexer.keys⟩
        rw [keeps_set]
        apply (keeps_add hOuter ⟨hMark, hMark⟩).bind
        intro _ after hAfter hCursor
        apply (ih hAfter).imp
        intro _ last hLast
        rw [hLast, hCursor]
      · exact keeps_pure hLexer rfl

/- Block collections are closed. -/
theorem keeps_unindentTo
    (column : Int) :
    Keeps (within limit) (unindentTo column) lexer
      fun _ after => after.cursor = lexer.cursor := by
  unfold unindentTo
  rw [keeps_get]
  split
  · exact
      keeps_closeTo hLexer hLexer.cursor.mark column _
  · exact keeps_pure hLexer rfl

end Lex

end Yaml

end Transclusion

------------------------------------------------------------
-- Tokens in Context
------------------------------------------------------------

namespace Transclusion

namespace Yaml

namespace Lex

variable {limit : Nat}
variable {lexer : Lexer}
variable (hLexer : lexer.IsWithin limit)

include hLexer

/- Everything is closed before a token of the stream. -/
theorem keeps_closeDocument :
    Keeps (within limit) closeDocument lexer
      fun _ after => after.cursor = lexer.cursor := by
  unfold closeDocument
  apply (keeps_unindentTo hLexer (-1)).bind
  intro _ after hAfter hClosed
  apply (keeps_dropKey hAfter).bind
  intro _ next hNext hDropped
  apply (keeps_allowKey hNext false).imp
  intro _ last hLast
  rw [hLast, hDropped, hClosed]

/-
  The end of the stream is on a line of the text, or on the
  one right behind it.
-/
theorem keeps_streamEnd
    (hEnd : lexer.cursor.rest = []) :
    Keeps (within limit) streamEnd lexer fun _ _ => True := by
  let ended : Lexer :=
    if lexer.cursor.mark.column = 0 then lexer
    else
      { lexer with
        cursor :=
          { lexer.cursor with
            mark :=
              { lexer.cursor.mark with
                line := lexer.cursor.mark.line + 1
                column := 0 } } }
  have hEnded : ended.IsWithin limit := by
    dsimp only [ended]
    split
    · exact hLexer
    · rename_i hColumn
      have hLines := hLexer.cursor.lines
      rw [hEnd, bne_iff_ne.mpr hColumn] at hLines
      refine isWithin_withCursor hLexer ⟨?_, ?_⟩
      · rw [hEnd]
        exact hLines
      · exact hLexer.cursor.rest
  unfold streamEnd
  rw [keeps_modify]
  change Keeps (within limit) _ ended _
  apply (keeps_closeDocument hEnded).bind
  intro _ after hAfter _hCursor
  rw [keeps_scan_of_ok rfl]
  have hMark := hAfter.cursor.mark
  exact (keeps_add hAfter ⟨hMark, hMark⟩).any

/- A directive is within the lines. -/
theorem keeps_directive
    (hFirst : 1 ≤ lexer.cursor.rest.length) :
    Keeps (within limit) directive lexer fun _ _ => True := by
  unfold directive
  apply (keeps_closeDocument hLexer).bind
  intro _ after hAfter hCursor
  rw [← hCursor] at hFirst
  apply
    (keeps_scan hAfter
      (Scan.keeps_directive hAfter.cursor hFirst)).bind
  rintro token next hNext ⟨_hSame, hToken⟩
  exact (keeps_add hNext hToken).any

/- The start or the end of a document is within the lines. -/
theorem keeps_documentIndicator
    (hThree : 3 ≤ lexer.cursor.rest.length)
    (kind : TokenKind) :
    Keeps (within limit) (documentIndicator kind) lexer
      fun _ _ => True := by
  unfold documentIndicator
  apply (keeps_closeDocument hLexer).bind
  intro _ after hAfter hCursor
  rw [← hCursor] at hThree
  exact keeps_addSkipping hAfter hThree kind

/- The start of a flow collection is within the lines. -/
theorem keeps_flowStart
    (hFirst : 1 ≤ lexer.cursor.rest.length)
    (kind : TokenKind) :
    Keeps (within limit) (flowStart kind) lexer
      fun _ _ => True := by
  unfold flowStart
  apply (keeps_saveKey hLexer).bind
  intro _ after hAfter hCursor
  rw [← hCursor] at hFirst
  have hOpened :
      Lexer.IsWithin
        { after with keys := none :: after.keys } limit := by
    refine ⟨hAfter.cursor, hAfter.tokens, ?_⟩
    intro pending hPending
    rcases List.mem_cons.mp hPending with hNone | hOld
    · cases hNone
    · exact hAfter.keys pending hOld
  rw [keeps_modify]
  apply (keeps_allowKey hOpened true).bind
  intro _ next hNext hSame
  rw [← hSame] at hFirst
  exact keeps_addSkipping hNext hFirst kind

/- The end of a flow collection is within the lines. -/
theorem keeps_flowEnd
    (hFirst : 1 ≤ lexer.cursor.rest.length)
    (kind : TokenKind) :
    Keeps (within limit) (flowEnd kind) lexer
      fun _ _ => True := by
  unfold flowEnd
  apply (keeps_dropKey hLexer).bind
  intro _ after hAfter hCursor
  rw [← hCursor] at hFirst
  let closed : Lexer :=
    if after.inFlow then
      { after with keys := after.keys.tail }
    else after
  have hClosed : closed.IsWithin limit := by
    dsimp only [closed]
    split
    · refine ⟨hAfter.cursor, hAfter.tokens, ?_⟩
      intro pending hPending
      exact
        hAfter.keys pending (List.mem_of_mem_tail hPending)
    · exact hAfter
  have hClosedCursor : closed.cursor = after.cursor := by
    dsimp only [closed]
    split
    · rfl
    · rfl
  rw [keeps_modify]
  change Keeps (within limit) _ closed _
  apply (keeps_allowKey hClosed false).bind
  intro _ next hNext hSame
  rw [← hClosedCursor, ← hSame] at hFirst
  exact keeps_addSkipping hNext hFirst kind

/- A comma is within the lines. -/
theorem keeps_flowEntry
    (hFirst : 1 ≤ lexer.cursor.rest.length) :
    Keeps (within limit) flowEntry lexer fun _ _ => True := by
  unfold flowEntry
  apply (keeps_dropKey hLexer).bind
  intro _ after hAfter hCursor
  apply (keeps_allowKey hAfter true).bind
  intro _ next hNext hSame
  rw [← hCursor, ← hSame] at hFirst
  exact keeps_addSkipping hNext hFirst .flowEntry

/- A collection is opened at the cursor. -/
theorem keeps_indentHere
    (kind : TokenKind)
    (problem : Problem) :
    Keeps (within limit) (indentHere kind problem) lexer
      fun _ after => after.cursor = lexer.cursor := by
  have hMark := hLexer.cursor.mark
  unfold indentHere
  rw [keeps_get]
  split
  · dsimp only
    split
    · exact hMark
    · exact keeps_indentTo hLexer hMark _ _ _
  · exact keeps_pure hLexer rfl

/- The dash of a sequence is within the lines. -/
theorem keeps_blockEntry
    (hFirst : 1 ≤ lexer.cursor.rest.length) :
    Keeps (within limit) blockEntry lexer
      fun _ _ => True := by
  unfold blockEntry
  apply (keeps_indentHere hLexer _ _).bind
  intro _ opened hOpened hCursor
  apply (keeps_dropKey hOpened).bind
  intro _ after hAfter hDropped
  apply (keeps_allowKey hAfter true).bind
  intro _ next hNext hSame
  rw [← hCursor, ← hDropped, ← hSame] at hFirst
  exact keeps_addSkipping hNext hFirst .blockEntry

/- The question mark of a key is within the lines. -/
theorem keeps_key
    (hFirst : 1 ≤ lexer.cursor.rest.length) :
    Keeps (within limit) key lexer fun _ _ => True := by
  unfold key
  apply (keeps_indentHere hLexer _ _).bind
  intro _ opened hOpened hCursor
  apply (keeps_dropKey hOpened).bind
  intro _ after hAfter hDropped
  rw [keeps_get]
  apply (keeps_allowKey hAfter _).bind
  intro _ next hNext hSame
  rw [← hCursor, ← hDropped, ← hSame] at hFirst
  exact keeps_addSkipping hNext hFirst .key

/- The colon of a value is within the lines. -/
theorem keeps_value
    (hFirst : 1 ≤ lexer.cursor.rest.length) :
    Keeps (within limit) value lexer fun _ _ => True := by
  unfold value
  rw [keeps_get]
  dsimp only
  split
  · rename_i pending hPending
    have hMark : pending.mark.IsWithin limit :=
      hLexer.keys pending (List.mem_of_head? hPending)
    rw [keeps_set]
    apply
      (keeps_indentTo
        (isWithin_insert hLexer ⟨hMark, hMark⟩ _) hMark _ _
        _).bind
    intro _ opened hOpened hCursor
    apply (keeps_replaceKey hOpened _).bind
    · intro _ after hAfter hReplaced
      apply (keeps_allowKey hAfter false).bind
      intro _ next hNext hSame
      have hNextFirst : 1 ≤ next.cursor.rest.length := by
        rw [hSame, hReplaced, hCursor]
        exact hFirst
      exact keeps_addSkipping hNext hNextFirst .value
    · intro pending hNone
      cases hNone
  · apply (keeps_indentHere hLexer _ _).bind
    intro _ opened hOpened hCursor
    apply (keeps_allowKey hOpened _).bind
    intro _ next hNext hSame
    rw [← hCursor, ← hSame] at hFirst
    exact keeps_addSkipping hNext hFirst .value

/- A token that may begin a key is within the lines. -/
theorem keeps_keyStart
    {reading : Scan Token}
    (hReading :
      Keeps (Scan.within limit) reading lexer.cursor
        fun token _ => token.IsWithin limit) :
    Keeps (within limit) (keyStart reading) lexer
      fun _ _ => True := by
  unfold keyStart
  apply (keeps_saveKey hLexer).bind
  intro _ saved hSaved hCursor
  apply (keeps_allowKey hSaved false).bind
  intro _ after hAfter hSame
  rw [← hCursor, ← hSame] at hReading
  apply (keeps_scan hAfter hReading).bind
  rintro token next hNext ⟨_hSame, hToken⟩
  exact (keeps_add hNext hToken).any

/- A block scalar is within the lines. -/
theorem keeps_blockScalar
    (hFirst : 1 ≤ lexer.cursor.rest.length)
    (folded : Bool) :
    Keeps (within limit) (blockScalar folded) lexer
      fun _ _ => True := by
  unfold blockScalar
  apply (keeps_dropKey hLexer).bind
  intro _ dropped hDropped hCursor
  apply (keeps_allowKey hDropped true).bind
  intro _ after hAfter hSame
  rw [← hCursor, ← hSame] at hFirst
  rw [keeps_get]
  apply
    (keeps_scan hAfter
      (Scan.keeps_blockScalar hAfter.cursor hFirst _
        folded)).bind
  rintro token next hNext ⟨_hSame, hToken⟩
  exact (keeps_add hNext hToken).any

/- A plain scalar is within the lines. -/
theorem keeps_plainScalar :
    Keeps (within limit) plainScalar lexer
      fun _ _ => True := by
  unfold plainScalar
  apply (keeps_saveKey hLexer).bind
  intro _ saved hSaved _hCursor
  apply (keeps_allowKey hSaved false).bind
  intro _ after hAfter _hSame
  rw [keeps_get]
  apply
    (keeps_scan hAfter
      (Scan.keeps_plainScalar hAfter.cursor _ _)).bind
  rintro ⟨token, broken⟩ next hNext ⟨_hSame, hToken⟩
  dsimp only
  split
  · apply (keeps_allowKey hNext true).bind
    intro _ last hLast _hSame
    exact (keeps_add hLast hToken).any
  · exact (keeps_add hNext hToken).any

end Lex

end Yaml

end Transclusion

------------------------------------------------------------
-- The Next Token
------------------------------------------------------------

namespace Transclusion

namespace Yaml

namespace Lex

variable {limit : Nat}
variable {lexer : Lexer}
variable (hLexer : lexer.IsWithin limit)

include hLexer

/- A gap between tokens is left behind. -/
theorem keeps_skipToToken
    (fuel : Nat) :
    Keeps (within limit) (skipToToken fuel) lexer
      fun _ _ => True := by
  induction fuel generalizing lexer with
  | zero => exact keeps_pure hLexer trivial
  | succ fuel ih =>
      have hRest
          {after : Lexer}
          (hAfter : after.IsWithin limit) :
          Keeps (within limit)
            (do
              scan (Scan.ensure 1)
              let tabs := lexer.inFlow || !lexer.keyAllowed
              let _ ←
                scan (Scan.span fun c =>
                  c == ' ' || (tabs && c == '\t'))
              scan Scan.skipComment
              if (← scan Scan.peek).any isBreak then
                scan (Scan.ensure 2)
                let _ ← scan Scan.lineBreak
                if !lexer.inFlow then
                  allowKey true
                skipToToken fuel)
            after fun _ _ => True := by
        apply keeps_ensure_bind hAfter
        apply
          (keeps_scan hAfter
            (Scan.keeps_span hAfter.cursor _)).bind
        intro _ spaced hSpaced _
        apply
          (keeps_scan hSpaced
            (Scan.keeps_skipComment hSpaced.cursor)).bind
        intro _ behind hBehind _
        rw [keeps_scan_of_ok rfl]
        split
        · apply keeps_ensure_bind hBehind
          apply
            (keeps_scan hBehind
              (Scan.keeps_lineBreak hBehind.cursor)).bind
          intro _ next hNext _
          dsimp only
          split
          · apply (keeps_allowKey hNext true).bind
            intro _ last hLast _
            exact ih hLast
          · exact ih hNext
        · exact keeps_pure hBehind trivial
      unfold skipToToken
      apply keeps_ensure_bind hLexer
      rw [keeps_get]
      dsimp only
      have hLook (c : Char) :
          Scan.nextIs c lexer.cursor =
            .ok (lexer.cursor.rest[0]? == some c,
              lexer.cursor) :=
        rfl
      rw [keeps_scan_of_ok (hLook _)]
      split
      · rename_i hMark
        rw [Bool.and_eq_true] at hMark
        apply
          (keeps_scan hLexer
            (Scan.keeps_skip hLexer.cursor
              (Scan.length_of_nextIs hMark.2))).bind
        intro _ after hAfter _
        exact hRest hAfter
      · exact hRest hLexer

/- The token that begins with a character is within the lines. -/
theorem keeps_dispatch
    {c : Char}
    (hFirst : 1 ≤ lexer.cursor.rest.length) :
    Keeps (within limit) (dispatch c) lexer
      fun _ _ => True := by
  have hCursor := hLexer.cursor
  have hEither
      {condition : Prop}
      [Decidable condition]
      {first second : Lex Unit}
      (hThen : Keeps (within limit) first lexer
        fun _ _ => True)
      (hElse : Keeps (within limit) second lexer
        fun _ _ => True) :
      Keeps (within limit)
        (if condition then first else second) lexer
        fun _ _ => True := by
    split
    · exact hThen
    · exact hElse
  unfold dispatch
  rw [keeps_get, keeps_scan_of_ok rfl]
  dsimp only
  apply hEither (keeps_flowStart hLexer hFirst _)
  apply hEither (keeps_flowStart hLexer hFirst _)
  apply hEither (keeps_flowEnd hLexer hFirst _)
  apply hEither (keeps_flowEnd hLexer hFirst _)
  apply hEither (keeps_flowEntry hLexer hFirst)
  apply hEither (keeps_blockEntry hLexer hFirst)
  apply hEither (keeps_key hLexer hFirst)
  apply hEither (keeps_value hLexer hFirst)
  apply
    hEither
      (keeps_keyStart hLexer
        (Scan.keeps_anchor hCursor hFirst true))
  apply
    hEither
      (keeps_keyStart hLexer
        (Scan.keeps_anchor hCursor hFirst false))
  apply
    hEither (keeps_keyStart hLexer (Scan.keeps_tag hCursor _))
  apply hEither (keeps_blockScalar hLexer hFirst false)
  apply hEither (keeps_blockScalar hLexer hFirst true)
  apply
    hEither
      (keeps_keyStart hLexer
        (Scan.keeps_quotedScalar hCursor hFirst true))
  apply
    hEither
      (keeps_keyStart hLexer
        (Scan.keeps_quotedScalar hCursor hFirst false))
  apply hEither (keeps_plainScalar hLexer)
  have hFail :
      Keeps (Scan.within limit)
        (do Scan.fail .noTokenStart .nextToken (← Scan.mark))
        lexer.cursor fun (_ : Unit) _ => True := by
    rw [Scan.keeps_mark]
    exact Scan.keeps_fail hCursor _ _ _
  exact (keeps_scan hLexer hFail).any

/- The next token is within the lines. -/
theorem keeps_fetch :
    Keeps (within limit) fetch lexer fun _ _ => True := by
  unfold fetch
  rw [keeps_scan_of_ok rfl]
  apply (keeps_skipToToken hLexer _).bind
  intro _ skipped hSkipped _
  apply (keeps_dropStale hSkipped).bind
  intro _ settled hSettled _
  rw [keeps_scan_of_ok rfl]
  apply (keeps_unindentTo hSettled _).bind
  intro _ after hAfter hCursor
  apply keeps_ensure_bind hAfter
  have hDropStale
      {last : Lexer}
      (hLast : last.IsWithin limit) :
      Keeps (within limit) dropStale last fun _ _ => True :=
    (keeps_dropStale hLast).any
  have hLook :
      Scan.peek after.cursor =
        .ok (after.cursor.rest[0]?, after.cursor) :=
    rfl
  rw [keeps_scan_of_ok hLook]
  have hThree
      {c : Char}
      (hIndicator :
        (after.cursor.mark.column == 0 &&
          after.cursor.rest.take 3 == [c, c, c] &&
          isGap after.cursor.rest[3]?) = true) :
      3 ≤ after.cursor.rest.length := by
    simp only [Bool.and_eq_true, beq_iff_eq] at hIndicator
    have hTake := congrArg List.length hIndicator.1.2
    rw [List.length_take] at hTake
    change min 3 _ = 3 at hTake
    omega
  have hIndicator (c : Char) :
      Scan.atIndicator c after.cursor =
        .ok
          (after.cursor.mark.column == 0 &&
              after.cursor.rest.take 3 == [c, c, c] &&
              isGap after.cursor.rest[3]?,
            after.cursor) :=
    rfl
  dsimp only
  split
  · rename_i hNone
    have hEnd : after.cursor.rest = [] := by
      rw [List.getElem?_eq_none_iff] at hNone
      exact List.length_eq_zero_iff.mp (Nat.le_zero.mp hNone)
    apply (keeps_streamEnd hAfter hEnd).bind
    intro _ last hLast _
    exact hDropStale hLast
  · rename_i c hSome
    have hFirst := (List.getElem?_eq_some_iff.mp hSome).1
    split
    · apply (keeps_directive hAfter hFirst).bind
      intro _ last hLast _
      exact hDropStale hLast
    · rw [keeps_scan_of_ok (hIndicator '-')]
      split
      · rename_i hDash
        apply
          (keeps_documentIndicator hAfter (hThree hDash)
            _).bind
        intro _ last hLast _
        exact hDropStale hLast
      · rw [keeps_scan_of_ok (hIndicator '.')]
        split
        · rename_i hDot
          apply
            (keeps_documentIndicator hAfter (hThree hDot)
              _).bind
          intro _ last hLast _
          exact hDropStale hLast
        · apply (keeps_dispatch hAfter hFirst).bind
          intro _ last hLast _
          exact hDropStale hLast

end Lex

end Yaml

end Transclusion

------------------------------------------------------------
-- Token Streams
------------------------------------------------------------

namespace Transclusion

namespace Yaml

/- Tokens and an error that are within so many lines. -/
structure TokenStream.IsWithin
    (stream : TokenStream)
    (limit : Nat) : Prop where
  tokens : ∀ token ∈ stream.tokens, token.IsWithin limit
  error :
    ∀ error, stream.error = some error →
      error.mark.IsWithin limit

namespace TokenStream

/- Tokens are collected within the lines of their lexer. -/
theorem isWithin_collect
    {limit : Nat}
    {lexer : Lexer}
    (hLexer : lexer.IsWithin limit)
    (fuel : Nat) :
    (collect fuel lexer).IsWithin limit := by
  have hTokens
      {last : Lexer}
      (hLast : last.IsWithin limit) :
      ∀ token ∈ last.tokens.reverse, token.IsWithin limit := by
    intro token hToken
    exact hLast.tokens token (List.mem_reverse.mp hToken)
  have hNone
      {last : Lexer}
      (hLast : last.IsWithin limit) :
      IsWithin ⟨last.tokens.reverse, none⟩ limit := by
    refine ⟨hTokens hLast, ?_⟩
    intro error hError
    cases hError
  induction fuel generalizing lexer with
  | zero => exact hNone hLexer
  | succ fuel ih =>
      have hFetch := Lex.keeps_fetch hLexer
      unfold Keeps Meets at hFetch
      unfold collect
      rw [StateT.run]
      cases hRun : Lex.fetch lexer with
      | error error =>
          rw [hRun] at hFetch
          refine ⟨?_, ?_⟩
          · intro token hToken
            exact
              hTokens hLexer token
                (List.mem_of_mem_take hToken)
          · intro other hOther
            cases hOther
            exact hFetch
      | ok pair =>
          rw [hRun] at hFetch
          dsimp only
          split
          · exact hNone hFetch.1
          · exact ih hFetch.1

end TokenStream

/- The tokens of a text are within its lines. -/
theorem TokenStream.isWithin_ofText
    (text : List Char) :
    (ofText text).IsWithin (linesFrom false text) := by
  have hStart :=
    Mark.isWithin_start (linesFrom false text)
  have hCursor :
      (Cursor.ofText text).IsWithin
        (linesFrom false text) := by
    have hPrefix : (Cursor.ofText text).rest <+: text :=
      readable_prefix 0 0 [] text
    refine ⟨?_, hPrefix.length_le⟩
    rcases hPrefix with ⟨more, hText⟩
    have hLines :=
      linesFrom_append_le false (Cursor.ofText text).rest more
    rw [hText] at hLines
    change 0 + linesFrom false (Cursor.ofText text).rest ≤ _
    omega
  have hEnsure := Scan.keeps_ensure hCursor 1
  unfold Keeps Meets at hEnsure
  unfold ofText
  dsimp only
  rw [StateT.run]
  split
  · rename_i error hError
    rw [hError] at hEnsure
    refine ⟨?_, ?_⟩
    · intro token hNone
      cases hNone
    · intro other hOther
      cases hOther
      exact hEnsure
  · apply isWithin_collect
    refine ⟨hCursor, ?_, ?_⟩
    · intro token hToken
      rw [List.mem_singleton] at hToken
      subst hToken
      exact ⟨hStart, hStart⟩
    · intro pending hPending
      rw [List.mem_singleton] at hPending
      cases hPending

end Yaml

end Transclusion
