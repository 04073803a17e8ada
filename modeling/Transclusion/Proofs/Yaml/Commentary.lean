import Transclusion.Proofs.Yaml.Lexing
import Transclusion.Yaml.Document

/-
  Texts that hold nothing but comments.

  Key definitions include:
    * `Transclusion.Yaml.isCommentary`

  Key theorems include:
    * `Transclusion.Yaml.Lex.meets_skipToToken`
    * `Transclusion.Yaml.Document.ofText_of_isCommentary`

  All of such a text is left behind on the way to the first
  token, so that it is the end of the stream.
-/

------------------------------------------------------------
-- Commentaries
------------------------------------------------------------

namespace Transclusion

namespace Yaml

/-
  Whether a text has no content, in or outside of a comment:
  it holds spaces and line breaks, and comments that reach
  from a number sign to the end of the line.
-/
def isCommentary : Bool → List Char → Bool
  | _, [] => true
  | inComment, c :: rest =>
      if isBreak c then isCommentary false rest
      else if inComment then
        isAllowed c && isCommentary true rest
      else if c == '#' then isCommentary true rest
      else c == ' ' && isCommentary false rest

/- A line break may occur in a text. -/
theorem isAllowed_of_isBreak
    {c : Char}
    (hBreak : isBreak c = true) :
    isAllowed c = true := by
  simp only [isBreak, Bool.or_eq_true, beq_iff_eq] at hBreak
  rcases hBreak with (((rfl | rfl) | hCode) | hCode) | hCode
  · rfl
  · rfl
  all_goals
    unfold isAllowed
    rw [hCode]
    rfl

variable {inComment : Bool}
variable {c : Char}
variable {text rest : List Char}

/- A line break ends a comment. -/
theorem isCommentary_break
    (hBreak : isBreak c = true) :
    isCommentary inComment (c :: rest) =
      isCommentary false rest := by
  rw [isCommentary, if_pos hBreak]

/- Outside of comments there are only a few characters. -/
theorem isCommentary_cons_cases
    (hText : isCommentary false (c :: rest) = true) :
    isBreak c = true ∧ isCommentary false rest = true ∨
      c = '#' ∧ isCommentary true rest = true ∨
        c = ' ' ∧ isCommentary false rest = true := by
  rw [isCommentary] at hText
  split at hText
  · rename_i hBreak
    exact .inl ⟨hBreak, hText⟩
  · rw [if_neg Bool.false_ne_true] at hText
    split at hText
    · rename_i hSign
      exact .inr (.inl ⟨eq_of_beq hSign, hText⟩)
    · rw [Bool.and_eq_true_iff, beq_iff_eq] at hText
      exact .inr (.inr hText)

/- A commentary has only characters that may occur. -/
theorem isAllowed_of_isCommentary
    (hText : isCommentary inComment text = true) :
    ∀ c ∈ text, isAllowed c = true := by
  induction text generalizing inComment with
  | nil => exact List.forall_mem_nil _
  | cons c rest ih =>
      rw [List.forall_mem_cons]
      cases inComment with
      | false =>
          rcases isCommentary_cons_cases hText with
            ⟨hBreak, hRest⟩ | ⟨rfl, hRest⟩ | ⟨rfl, hRest⟩
          · exact ⟨isAllowed_of_isBreak hBreak, ih hRest⟩
          · exact ⟨rfl, ih hRest⟩
          · exact ⟨rfl, ih hRest⟩
      | true =>
          rw [isCommentary] at hText
          split at hText
          · rename_i hBreak
            exact ⟨isAllowed_of_isBreak hBreak, ih hText⟩
          · rw [if_pos rfl, Bool.and_eq_true_iff] at hText
            exact ⟨hText.1, ih hText.2⟩

/- Spaces in front can be left out. -/
theorem isCommentary_dropWhile
    {inClass : Char → Bool}
    (hClass :
      ∀ c, inClass c = true → c = ' ' ∨ c = '\t')
    (hText : isCommentary false text = true) :
    isCommentary false (text.dropWhile inClass) = true := by
  induction text with
  | nil => exact hText
  | cons c rest ih =>
      rw [List.dropWhile_cons]
      split
      · rename_i hIn
        rcases isCommentary_cons_cases hText with
          ⟨hBreak, _⟩ | ⟨rfl, _⟩ | ⟨_, hRest⟩
        · rcases hClass c hIn with rfl | rfl <;> cases hBreak
        · rcases hClass _ hIn with hEq | hEq <;> cases hEq
        · exact ih hRest
      · exact hText

/- The rest of a line can be left out. -/
theorem isCommentary_dropWhile_line
    (hText : isCommentary inComment text = true) :
    isCommentary false (text.dropWhile fun c => !isBreak c) =
      true := by
  induction text generalizing inComment with
  | nil => rfl
  | cons c rest ih =>
      rw [List.dropWhile_cons]
      cases hBreak : isBreak c with
      | true =>
          rw [isCommentary_break hBreak] at hText
          rw [if_neg (by simp), isCommentary_break hBreak]
          exact hText
      | false =>
          rw [if_pos (by simp)]
          rw [isCommentary, hBreak,
            if_neg Bool.false_ne_true] at hText
          split at hText
          · exact ih (Bool.and_eq_true_iff.mp hText).2
          · split at hText
            · exact ih hText
            · exact ih (Bool.and_eq_true_iff.mp hText).2

end Yaml

end Transclusion

------------------------------------------------------------
-- Lines Left Behind
------------------------------------------------------------

namespace Transclusion

namespace Yaml

namespace Scan

variable {cursor : Cursor}

/- What is ensured fails on a fault only. -/
theorem meets_ensure
    (count : Nat) :
    Meets (fun _ => cursor.fault.isSome) (ensure count)
      cursor fun _ after => after = cursor := by
  unfold ensure
  rw [meets_bind_of_ok get_ok]
  cases cursor.fault with
  | none => exact rfl
  | some offset =>
      simp only
      split
      · exact rfl
      · exact rfl

/- The characters of a class are left behind. -/
theorem meets_span
    (inClass : Char → Bool) :
    Meets (fun _ => cursor.fault.isSome) (span inClass)
      cursor fun _ after =>
        ∃ mark,
          after =
            { cursor with
              rest := cursor.rest.dropWhile inClass
              mark := mark } := by
  let taken := cursor.rest.takeWhile inClass
  let left := cursor.rest.dropWhile inClass
  have hDrop : cursor.rest.drop taken.length = left := by
    have hAll : (taken ++ left).drop taken.length = left :=
      List.drop_left
    rwa [List.takeWhile_append_dropWhile] at hAll
  unfold span
  rw [meets_bind_of_ok get_ok]
  simp only
  rw [skip, meets_bind_of_ok modify_ok]
  apply (meets_ensure 1).bind
  intro _ after hAfter
  rw [hDrop] at hAfter
  exact ⟨_, hAfter⟩

/-
  A line break that comes next is left behind, and with it
  a line feed that belongs to it.
-/
theorem meets_lineBreak
    (fault : SyntaxError → Prop) :
    Meets fault lineBreak cursor fun _ after =>
      ∃ mark count,
        after =
            { cursor with
              rest := cursor.rest.drop count
              mark := mark } ∧
          (cursor.rest.head?.any isBreak = true →
            count = 1 ∨
              count = 2 ∧
                ∃ more,
                  cursor.rest = '\r' :: '\n' :: more) := by
  unfold lineBreak
  rw [meets_bind_of_ok get_ok]
  simp only
  split
  · rename_i more hRest
    rw [meets_bind_of_ok set_ok]
    exact ⟨_, 2, rfl, fun _ => .inr ⟨rfl, more, hRest⟩⟩
  · rename_i c more _ hRest
    split
    · rw [meets_bind_of_ok set_ok]
      split
      · exact ⟨_, 1, rfl, fun _ => .inl rfl⟩
      · exact ⟨_, 1, rfl, fun _ => .inl rfl⟩
    · rename_i hBreak
      refine ⟨cursor.mark, 0, rfl, fun hFirst => ?_⟩
      rw [hRest] at hFirst
      exact absurd hFirst hBreak
  · rename_i hRest
    refine ⟨cursor.mark, 0, rfl, fun hFirst => ?_⟩
    rw [hRest] at hFirst
    cases hFirst

/- A line break of a commentary is left behind. -/
theorem meets_lineBreak_cons
    {c : Char}
    {rest : List Char}
    (hCursor : cursor.rest = c :: rest)
    (hBreak : isBreak c = true)
    (hRest : isCommentary false rest = true) :
    Meets (fun _ => False) lineBreak cursor fun _ after =>
      ∃ left mark,
        after = { cursor with rest := left, mark := mark } ∧
          left.length ≤ rest.length ∧
            isCommentary false left = true := by
  refine (meets_lineBreak _).imp ?_
  rintro _ _ ⟨mark, count, rfl, hCount⟩
  refine ⟨_, mark, rfl, ?_⟩
  rw [hCursor] at hCount ⊢
  rcases hCount hBreak with rfl | ⟨rfl, more, hMore⟩
  · exact ⟨Nat.le_refl _, hRest⟩
  · cases hMore
    exact
      ⟨Nat.le_succ _,
        (isCommentary_break rfl).symm.trans hRest⟩

/-
  Behind a comment that comes next, or where none does, a
  line ends.
-/
theorem meets_skipComment
    (hFault : cursor.fault = none)
    (hRest : isCommentary false cursor.rest = true)
    (hSpace : cursor.rest.head? ≠ some ' ') :
    Meets (fun _ => False) skipComment cursor fun _ after =>
      ∃ rest mark,
        after = { cursor with rest := rest, mark := mark } ∧
          rest.length ≤ cursor.rest.length ∧
            isCommentary false rest = true ∧
              ∀ c ∈ rest.head?, isBreak c = true := by
  have hNext :
      nextIs '#' cursor =
        .ok (cursor.rest[0]? == some '#', cursor) := by
    rfl
  unfold skipComment
  rw [meets_bind_of_ok hNext]
  split
  · apply Meets.bind
    · refine (meets_span _).weaken ?_
      rw [hFault]
      exact fun _ hNone => Bool.noConfusion hNone
    · rintro _ _ ⟨mark, rfl⟩
      refine
        ⟨_, mark, rfl, (List.dropWhile_sublist _).length_le,
          isCommentary_dropWhile_line hRest, ?_⟩
      intro c hFirst
      have hNot :=
        List.head?_dropWhile_not (!isBreak ·) cursor.rest
      rw [hFirst] at hNot
      simpa using hNot
  · rename_i hSign
    refine ⟨_, cursor.mark, rfl, Nat.le_refl _, hRest, ?_⟩
    intro c hFirst
    rcases List.head?_eq_some_iff.mp hFirst with
      ⟨more, hCons⟩
    rw [hCons] at hRest hSpace hSign
    rcases isCommentary_cons_cases hRest with
      ⟨hBreak, _⟩ | ⟨rfl, _⟩ | ⟨rfl, _⟩
    · exact hBreak
    · exact absurd rfl hSign
    · exact absurd rfl hSpace

end Scan

end Yaml

end Transclusion

------------------------------------------------------------
-- The Way to the End
------------------------------------------------------------

namespace Transclusion

namespace Yaml

/- Whether only the cursor of a lexer went to its end. -/
def Lexer.EndsAt
    (lexer after : Lexer) : Prop :=
  ∃ mark allowed,
    after =
      { lexer with
        cursor :=
          { lexer.cursor with rest := [], mark := mark }
        keyAllowed := allowed }

/- What goes to the end from later on goes there. -/
theorem Lexer.EndsAt.of_rest
    {lexer after : Lexer}
    {rest : List Char}
    {mark : Mark}
    {allowed : Bool}
    (hAfter :
      Lexer.EndsAt
        { lexer with
          cursor :=
            { lexer.cursor with rest := rest, mark := mark }
          keyAllowed := allowed }
        after) :
    lexer.EndsAt after := by
  rcases hAfter with ⟨mark, allowed, rfl⟩
  exact ⟨mark, allowed, rfl⟩

namespace Lex

variable {lexer : Lexer}

/- A text without a fault has every character at hand. -/
theorem scan_ensure
    (hFault : lexer.cursor.fault = none)
    (count : Nat) :
    scan (Scan.ensure count) lexer = .ok ((), lexer) := by
  have hLook :
      Scan.ensure count lexer.cursor =
        .ok ((), lexer.cursor) := by
    unfold Scan.ensure
    rw [bind_ok get_ok, hFault]
    rfl
  exact scan_look hLook

/- A commentary begins with no byte order mark. -/
theorem scan_nextIs_byteOrderMark
    (hRest : isCommentary false lexer.cursor.rest = true) :
    scan (Scan.nextIs (Char.ofNat 0xFEFF)) lexer =
      .ok (false, lexer) := by
  have hMark :
      (lexer.cursor.rest[0]? == some (Char.ofNat 0xFEFF)) =
        false := by
    rw [beq_eq_false_iff_ne, ← List.head?_eq_getElem?]
    intro hFirst
    rcases List.head?_eq_some_iff.mp hFirst with ⟨more, hCons⟩
    rw [hCons] at hRest
    rcases isCommentary_cons_cases hRest with
      ⟨hBreak, _⟩ | ⟨hEq, _⟩ | ⟨hEq, _⟩
    · cases hBreak
    · cases hEq
    · cases hEq
  have hLook :
      Scan.nextIs (Char.ofNat 0xFEFF) lexer.cursor =
        .ok (lexer.cursor.rest[0]? ==
          some (Char.ofNat 0xFEFF), lexer.cursor) := by
    rfl
  rw [hMark] at hLook
  exact scan_look hLook

/-
  What goes on behind the spaces and the comment of a line
  goes on where the line ends.
-/
theorem meets_line
    {α : Type}
    {next : Lex α}
    {told : α → Lexer → Prop}
    (hFault : lexer.cursor.fault = none)
    (hRest : isCommentary false lexer.cursor.rest = true)
    (tabs : Bool)
    (hNext :
      ∀ rest mark,
        rest.length ≤ lexer.cursor.rest.length →
          isCommentary false rest = true →
            (∀ c ∈ rest.head?, isBreak c = true) →
              Meets (fun _ => False) next
                { lexer with
                  cursor :=
                    { lexer.cursor with
                      rest := rest, mark := mark } }
                told) :
    Meets (fun _ => False)
      (do
        let _ ←
          scan (Scan.span fun c =>
            c == ' ' || (tabs && c == '\t'))
        scan Scan.skipComment
        next)
      lexer told := by
  have hClass (c : Char)
      (hIn : (c == ' ' || (tabs && c == '\t')) = true) :
      c = ' ' ∨ c = '\t' := by
    simp only [Bool.or_eq_true, Bool.and_eq_true,
      beq_iff_eq] at hIn
    exact hIn.imp_right And.right
  apply
    (meets_scan
      ((Scan.meets_span _).weaken (by simp [hFault]))).bind
  rintro _ _ ⟨_, ⟨mark, rfl⟩, rfl⟩
  refine
    (meets_scan (Scan.meets_skipComment ?_ ?_ ?_)).bind ?_
  · exact hFault
  · exact isCommentary_dropWhile hClass hRest
  · intro hFirst
    have hNot :=
      List.head?_dropWhile_not
        (fun c => c == ' ' || (tabs && c == '\t'))
        lexer.cursor.rest
    rw [hFirst] at hNot
    cases hNot
  · rintro _ _ ⟨_, ⟨rest, mark, rfl, hLess, hRest, hEnd⟩, rfl⟩
    have hSpaces :=
      (lexer.cursor.rest.dropWhile_sublist fun c =>
        c == ' ' || (tabs && c == '\t')).length_le
    exact
      hNext rest mark (Nat.le_trans hLess hSpaces) hRest hEnd

/- All of a commentary is left behind. -/
theorem meets_skipToToken
    (hFault : lexer.cursor.fault = none)
    (hRest : isCommentary false lexer.cursor.rest = true)
    {fuel : Nat}
    (hFuel : lexer.cursor.rest.length < fuel) :
    Meets (fun _ => False) (skipToToken fuel) lexer
      fun _ after => lexer.EndsAt after := by
  induction fuel generalizing lexer with
  | zero => omega
  | succ fuel ih =>
      rw [skipToToken, meets_bind_of_ok (scan_ensure hFault 1),
        meets_bind_of_ok get_ok,
        meets_bind_of_ok (scan_nextIs_byteOrderMark hRest)]
      simp only [Bool.and_false, Bool.false_eq_true, if_false]
      rw [meets_bind_of_ok (scan_ensure hFault 1)]
      apply meets_line hFault hRest _
      intro rest mark hLess hRest hEnd
      refine (meets_bind_of_ok (scan_look rfl)).mpr ?_
      cases rest with
      | nil => exact ⟨mark, lexer.keyAllowed, rfl⟩
      | cons c rest =>
          have hBreak : isBreak c = true := hEnd c rfl
          rw [isCommentary_break hBreak] at hRest
          simp only [List.getElem?_cons_zero, Option.any_some,
            hBreak, if_true]
          refine
            (meets_bind_of_ok
              (scan_ensure (by exact hFault) 2)).mpr ?_
          refine
            (meets_scan
              (Scan.meets_lineBreak_cons ?_ hBreak
                hRest)).bind ?_
          · rfl
          rintro _ _
            ⟨_, ⟨left, mark, rfl, hLeft, hRest⟩, rfl⟩
          have hShort : left.length < fuel := by
            rw [List.length_cons] at hLess
            omega
          split
          · refine (meets_bind_of_ok (allowKey_ok true)).mpr ?_
            refine
              Meets.imp (ih ?_ ?_ ?_) fun _ _ => .of_rest
            · exact hFault
            · exact hRest
            · exact hShort
          · refine
              Meets.imp (ih ?_ ?_ ?_) fun _ _ => .of_rest
            · exact hFault
            · exact hRest
            · exact hShort

end Lex

end Yaml

end Transclusion

------------------------------------------------------------
-- Documents without Content
------------------------------------------------------------

namespace Transclusion

namespace Yaml

variable {text : List Char}

/- The first token of a commentary ends the stream. -/
theorem exists_fetch_start
    (hText : isCommentary false text = true) :
    ∃ next,
      Lex.fetch (Lexer.start text) = .ok ((), next) ∧
        next.tokens.reverse.map Token.kind =
          [.streamStart] ++ [.streamEnd] := by
  have hSkips :
      Meets (fun _ => False)
        (Lex.skipToToken (text.length + 1))
        (Lexer.start text)
        fun _ after => (Lexer.start text).EndsAt after :=
    Lex.meets_skipToToken rfl hText (Nat.lt_succ_self _)
  have hFuel :
      Lex.scan Scan.fuel (Lexer.start text) =
        .ok (text.length + 1, Lexer.start text) := by
    rfl
  rcases hSkips.exists_ok with
    ⟨_, ending, hSkip, mark, allowed, hEnding⟩
  have hCursor :
      ending.cursor = Cursor.on [] text.length mark := by
    rw [hEnding]
    rfl
  -- Nothing is pending, so only the stream has to be closed.
  have hWay :
      Lex.fetch (Lexer.start text) =
        (do
          Lex.streamEnd
          Lex.dropStale : Lex Unit) ending := by
    rw [Lex.fetch, bind_ok hFuel, bind_ok hSkip, hEnding]
    rfl
  rcases Lex.exists_streamEnd hCursor with ⟨last, hEnd⟩
  subst hEnding
  rw [hWay, bind_ok (hEnd.trans rfl)]
  exact ⟨_, rfl, rfl⟩

/- A stream that ends behind its start has no content. -/
theorem Document.ofEvents_of_streamEnd
    {stream : TokenStream}
    {first : TokenKind}
    (hTokens :
      stream.tokens.map Token.kind = [first, .streamEnd])
    (error : Option SyntaxError) :
    ofEvents error (EventStream.ofTokens stream).events {} =
      ({ items := [], size := 0 }, true) := by
  rcases stream with ⟨tokens, fault⟩
  rcases List.map_eq_cons_iff.mp hTokens with
    ⟨⟨_, start, stop⟩, rest, rfl, rfl, hRest⟩
  rcases List.map_eq_singleton_iff.mp hRest with
    ⟨⟨_, ending, last⟩, rfl, rfl⟩
  rfl

/- A commentary is a document without a node. -/
theorem Document.ofText_of_isCommentary
    (hText : isCommentary false text = true) :
    Document.ofText text =
      ({ items := [], size := 0 }, true) := by
  rcases exists_fetch_start hText with
    ⟨next, hFetch, hTokens⟩
  exact
    ofEvents_of_streamEnd
      (Fetches.tokens_ofText (.refl _)
        (isAllowed_of_isCommentary hText) hFetch hTokens)
      _

end Yaml

end Transclusion
