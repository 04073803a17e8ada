import Transclusion.Proofs.Yaml.Commentary
import Transclusion.Proofs.Yaml.Derivation
import Transclusion.Proofs.Yaml.Reach
import Transclusion.Text.Lines

/-
  Texts of blank characters.

  Key definitions include:
    * `Transclusion.Yaml.Scan.Drops`
    * `Transclusion.Yaml.Lexer.IsBlank`

  Key theorems include:
    * `Transclusion.Yaml.Scan.drops_plainScalar`
    * `Transclusion.Yaml.Lex.meets_fetch`
    * `Transclusion.Yaml.Document.items_ofText_of_isBlank`

  Unicode has more blank characters than a text can leave out.
  Those are words, and nothing in a blank text makes anything
  else of them.
-/

------------------------------------------------------------
-- Scans That Only Leave Behind
------------------------------------------------------------

namespace Transclusion

namespace Yaml

/- A cursor that has left characters behind. -/
def Cursor.Leaves
    (before after : Cursor) : Prop :=
  after.rest <:+ before.rest

instance : IsPreorder Cursor Cursor.Leaves where
  refl _ := List.suffix_rfl
  trans _ _ _ hFirst hSecond := hSecond.trans hFirst

namespace Scan

variable {α : Type}

/- A scan that leaves characters behind and adds none. -/
@[reducible]
def Drops
    (scan : Scan α) : Prop :=
  Leads Cursor.Leaves scan

/- A failure leaves nothing behind. -/
theorem drops_fail
    (problem : Problem)
    (activity : Activity)
    (start : Mark) :
    Drops (fail problem activity start : Scan α) :=
  fun _ => trivial

/- What is ensured leaves nothing behind. -/
theorem drops_ensure
    (count : Nat) :
    Drops (ensure count) := by
  intro cursor
  refine
    ((meets_ensure count).weaken fun _ _ => trivial).imp ?_
  rintro _ _ rfl
  exact List.suffix_rfl

/- Characters are left behind. -/
theorem drops_skip
    (count : Nat) :
    Drops (skip count) :=
  fun _ => List.drop_suffix _ _

/- The characters of a class are left behind. -/
theorem drops_span
    (inClass : Char → Bool) :
    Drops (span inClass) := by
  intro cursor
  refine
    ((meets_span inClass).weaken fun _ _ => trivial).imp ?_
  rintro _ _ ⟨mark, rfl⟩
  exact List.dropWhile_suffix _

/- A line break is left behind. -/
theorem drops_lineBreak :
    Drops lineBreak := by
  intro cursor
  refine (meets_lineBreak _).imp ?_
  rintro _ _ ⟨mark, count, rfl, _⟩
  exact List.drop_suffix _ _

/- A comment is left behind. -/
theorem drops_skipComment :
    Drops skipComment := by
  refine (leads_of_look fun _ => rfl).bind fun isSign => ?_
  cases isSign with
  | false => exact leads_pure _
  | true => exact (drops_span _).bind fun _ => leads_pure _

/- The gap in a scalar is left behind. -/
theorem drops_fold
    (tabLimit : Nat)
    (start : Mark)
    (fuel : Nat)
    (taken : Fold) :
    Drops (fold tabLimit start fuel taken) := by
  induction fuel generalizing taken with
  | zero => exact leads_pure _
  | succ fuel ih =>
      rw [fold]
      refine (leads_of_look fun _ => rfl).bind fun next => ?_
      cases next with
      | none => exact leads_pure _
      | some c =>
          simp only
          split
          · have hSkip (taken : Fold) :
                Drops (do
                  skip 1
                  ensure 1
                  fold tabLimit start fuel taken) :=
              (drops_skip 1).bind fun _ =>
                (drops_ensure 1).bind fun _ => ih taken
            refine
              (leads_of_look fun _ => rfl).bind fun mark => ?_
            split
            · exact (drops_fail _ _ _).bind fun _ => hSkip _
            · exact hSkip _
          · split
            · exact
                (drops_ensure 2).bind fun _ =>
                  drops_lineBreak.bind fun _ =>
                    (drops_ensure 1).bind fun _ => ih _
            · exact leads_pure _

/- The characters up to a gap are left behind. -/
theorem drops_plainChars
    (inFlow : Bool)
    (start : Mark)
    (fuel : Nat) :
    Drops (plainChars inFlow start fuel) := by
  induction fuel with
  | zero => exact leads_pure _
  | succ fuel ih =>
      rw [plainChars]
      refine (leads_of_look fun _ => rfl).bind fun next => ?_
      refine (leads_of_look fun _ => rfl).bind fun after => ?_
      cases next with
      | none => exact leads_pure _
      | some c =>
          simp only
          split
          · exact leads_pure _
          · split
            · exact drops_fail _ _ _
            · split
              · exact leads_pure _
              · exact
                  (drops_skip 1).bind fun _ =>
                    (drops_ensure 2).bind fun _ =>
                      ih.bind fun _ => leads_pure _

/- The parts of a scalar are left behind. -/
theorem drops_plainParts
    (inFlow : Bool)
    (indent : Nat)
    (start : Mark)
    (fuel : Nat)
    (gap : Fold)
    (stop : Mark) :
    Drops (plainParts inFlow indent start fuel gap stop) := by
  induction fuel generalizing gap stop with
  | zero => exact leads_pure _
  | succ fuel ih =>
      rw [plainParts]
      refine (drops_ensure 4).bind fun _ => ?_
      refine (leads_of_look fun _ => rfl).bind fun ruled => ?_
      refine (leads_of_look fun _ => rfl).bind fun isSign => ?_
      split
      · exact leads_pure _
      refine (leads_of_look fun _ => rfl).bind fun enough => ?_
      refine (drops_plainChars _ _ _).bind fun chars => ?_
      split
      · exact leads_pure _
      refine (leads_of_look fun _ => rfl).bind fun stop => ?_
      refine (leads_of_look fun _ => rfl).bind fun next => ?_
      simp only
      split
      · exact leads_pure _
      refine (leads_of_look fun _ => rfl).bind fun enough => ?_
      refine (drops_fold _ _ _ _).bind fun after => ?_
      refine (leads_of_look fun _ => rfl).bind fun mark => ?_
      split
      · exact leads_pure _
      · exact (ih _ _).bind fun _ => leads_pure _

/- A scalar without quotes is left behind. -/
theorem drops_plainScalar
    (parent : Int)
    (inFlow : Bool) :
    Drops (plainScalar parent inFlow) := by
  refine (leads_of_look fun _ => rfl).bind fun start => ?_
  refine (leads_of_look fun _ => rfl).bind fun enough => ?_
  exact
    (drops_plainParts _ _ _ _ _ _).bind fun _ =>
      leads_pure _

end Scan

end Yaml

end Transclusion

------------------------------------------------------------
-- Words of Blank Characters
------------------------------------------------------------

namespace Transclusion

namespace Yaml

/- Whether a token is a word, without a quote around it. -/
def Token.IsWord
    (token : Token) : Prop :=
  ∃ text, token.kind = .scalar text .plain ∧ text ≠ []

/- Whether a character begins a word wherever it stands. -/
structure BeginsWord
    (c : Char) : Prop where
  indicator : Lex.isIndicator c = false
  point : c ≠ '.'
  gap : isGap (some c) = false

variable {c : Char}

/- A blank character is no indicator, and no point. -/
theorem isIndicator_of_isBlank
    (hBlank : Text.isBlank c = true) :
    Lex.isIndicator c = false ∧ c ≠ '.' := by
  have hNone :
      ∀ d ∈ ".-?:,[]\x7b\x7d#&*!|>'\"%@`".toList,
        Text.isBlank d = false := by
    exact List.forall_iff_forall_mem.mp (by decide)
  have hOther
      (hMem : c ∈ ".-?:,[]\x7b\x7d#&*!|>'\"%@`".toList) :
      False := by
    have hSolid := hNone c hMem
    rw [hBlank] at hSolid
    cases hSolid
  constructor
  · unfold Lex.isIndicator
    rw [Bool.eq_false_iff, ne_eq, List.contains_iff_mem]
    exact fun hMem => hOther (List.mem_cons_of_mem '.' hMem)
  · rintro rfl
    exact hOther List.mem_cons_self

namespace Scan

variable {cursor : Cursor}
variable {rest : List Char}

/- The first character of a word is one of its characters. -/
theorem meets_plainChars
    (hRest : cursor.rest = c :: rest)
    (hWord : BeginsWord c)
    (inFlow : Bool)
    (start : Mark)
    (fuel : Nat) :
    Meets (fun _ => True)
      (plainChars inFlow start (fuel + 1)) cursor
      fun chars _ => chars ≠ [] := by
  have hColon : (c == ':') = false :=
    Lex.beq_of_isIndicator hWord.indicator rfl
  have hFlow : ",[]\x7b\x7d".toList.contains c = false := by
    have hAll :
        ∀ d ∈ ",[]\x7b\x7d".toList,
          Lex.isIndicator d = true := by
      exact List.forall_iff_forall_mem.mp (by decide)
    rw [Bool.eq_false_iff, ne_eq, List.contains_iff_mem]
    intro hMem
    have hIndicator := hAll c hMem
    rw [hWord.indicator] at hIndicator
    cases hIndicator
  have hGap : (isWhite c || isBreak c) = false := hWord.gap
  have hPeek : peek cursor = .ok (some c, cursor) := by
    change Except.ok (cursor.rest[0]?, cursor) = _
    rw [hRest]
    rfl
  rw [plainChars, meets_bind_of_ok hPeek,
    meets_bind_of_ok rfl]
  simp only [hGap, hColon, hFlow, Bool.and_false,
    Bool.false_and, Bool.or_false, Bool.false_eq_true,
    if_false]
  apply (drops_skip 1 _).bind
  intro _ _ _
  apply (drops_ensure 2 _).bind
  intro _ _ _
  apply (drops_plainChars _ _ _ _).bind
  intro more _ _
  exact List.cons_ne_nil c more

/- No indicator of documents begins with another character. -/
theorem atIndicator_of_ne
    (hRest : cursor.rest = c :: rest)
    {d : Char}
    (hOther : c ≠ d) :
    atIndicator d cursor = .ok (false, cursor) := by
  have hTake :
      (cursor.rest.take 3 == [d, d, d]) = false := by
    rw [hRest, beq_eq_false_iff_ne]
    exact fun hEq => hOther (List.cons.inj hEq).1
  unfold atIndicator
  rw [bind_ok get_ok, hTake, Bool.and_false, Bool.false_and]
  rfl

/- A word has characters. -/
theorem meets_plainParts
    (hRest : cursor.rest = c :: rest)
    (hWord : BeginsWord c)
    (inFlow : Bool)
    (indent : Nat)
    (start : Mark)
    (fuel : Nat)
    (gap : Fold)
    (stop : Mark) :
    Meets (fun _ => True)
      (plainParts inFlow indent start (fuel + 1) gap stop)
      cursor fun parts _ => parts.1 ≠ [] := by
  have hSign :
      nextIs '#' cursor = .ok (false, cursor) := by
    have hOther : (cursor.rest[0]? == some '#') = false := by
      rw [hRest]
      exact Lex.beq_of_isIndicator hWord.indicator rfl
    change Except.ok (cursor.rest[0]? == some '#', cursor) = _
    rw [hOther]
  have hDash : c ≠ '-' :=
    beq_eq_false_iff_ne.mp
      (Lex.beq_of_isIndicator hWord.indicator rfl)
  have hRuled :
      atDocumentIndicator cursor = .ok (false, cursor) := by
    unfold atDocumentIndicator
    rw [bind_ok (atIndicator_of_ne hRest hDash),
      bind_ok (atIndicator_of_ne hRest hWord.point)]
    rfl
  rw [plainParts]
  apply ((meets_ensure 4).weaken fun _ _ => trivial).bind
  rintro _ _ rfl
  rw [meets_bind_of_ok hRuled, meets_bind_of_ok hSign]
  simp only [Bool.or_self, Bool.false_eq_true, if_false]
  refine (meets_bind_of_ok rfl).mpr ?_
  apply (meets_plainChars hRest hWord inFlow start _).bind
  intro chars after hChars
  rw [if_neg hChars]
  have hText : gap.text ++ chars ≠ [] :=
    fun hEq => hChars (List.append_eq_nil_iff.mp hEq).2
  refine (meets_bind_of_ok rfl).mpr ?_
  refine (meets_bind_of_ok rfl).mpr ?_
  split
  · exact hText
  · refine (meets_bind_of_ok rfl).mpr ?_
    apply (drops_fold _ _ _ _ _).bind
    intro fold _ _
    refine (meets_bind_of_ok rfl).mpr ?_
    split
    · exact hText
    · apply (drops_plainParts _ _ _ _ _ _ _).bind
      intro parts _ _
      exact fun hEq => hText (List.append_eq_nil_iff.mp hEq).1

/- A word is read. -/
theorem meets_plainScalar
    (hRest : cursor.rest = c :: rest)
    (hWord : BeginsWord c)
    (parent : Int)
    (inFlow : Bool) :
    Meets (fun _ => True) (plainScalar parent inFlow) cursor
      fun result _ => result.1.IsWord := by
  unfold plainScalar
  refine (meets_bind_of_ok rfl).mpr ?_
  refine (meets_bind_of_ok rfl).mpr ?_
  apply (meets_plainParts hRest hWord _ _ _ _ _ _).bind
  rintro ⟨text, stop, broken⟩ _ hText
  exact ⟨text, rfl, hText⟩

end Scan

end Yaml

end Transclusion

------------------------------------------------------------
-- Lexers in Blank Texts
------------------------------------------------------------

namespace Transclusion

namespace Yaml

/- Tokens, last first, that are words behind a first one. -/
def AreWords
    (tokens : List Token) : Prop :=
  ∃ words start,
    tokens = words ++ [start] ∧ ∀ word ∈ words, word.IsWord

/- A word is added to words. -/
theorem AreWords.cons
    {tokens : List Token}
    (hTokens : AreWords tokens)
    {token : Token}
    (hToken : token.IsWord) :
    AreWords (token :: tokens) := by
  rcases hTokens with ⟨words, start, rfl, hWords⟩
  exact
    ⟨token :: words, start, rfl,
      List.forall_mem_cons.mpr ⟨hToken, hWords⟩⟩

/- A lexer that has blanks left and words behind it. -/
structure Lexer.IsBlank
    (lexer : Lexer) : Prop where
  rest : ∀ c ∈ lexer.cursor.rest, Text.isBlank c = true
  indents : lexer.indents = []
  tokens : AreWords lexer.tokens

/-
  A lexer in blanks, or one that has read words and the end
  of the stream.
-/
def Lexer.IsPastBlanks
    (lexer : Lexer) : Prop :=
  lexer.IsBlank ∨
    ∃ stop tokens,
      lexer.tokens = stop :: tokens ∧
        stop.kind = .streamEnd ∧ AreWords tokens

/- A lexer that stays in blanks if it was in them. -/
def Lexer.StaysBlank
    (before after : Lexer) : Prop :=
  before.IsBlank → after.IsBlank

instance : IsPreorder Lexer Lexer.StaysBlank where
  refl _ hBlank := hBlank
  trans _ _ _ hFirst hSecond hBlank :=
    hSecond (hFirst hBlank)

/- A lexer whose pending keys alone have changed. -/
def Lexer.ChangesKeys
    (before after : Lexer) : Prop :=
  ∃ keys, after = { before with keys := keys }

instance : IsPreorder Lexer Lexer.ChangesKeys where
  refl lexer := ⟨lexer.keys, rfl⟩
  trans := by
    rintro _ _ _ ⟨_, rfl⟩ ⟨keys, rfl⟩
    exact ⟨keys, rfl⟩

/- A lexer in blanks stays so as its keys change. -/
theorem Lexer.ChangesKeys.staysBlank
    {before after : Lexer}
    (hChanges : before.ChangesKeys after) :
    before.StaysBlank after := by
  rcases hChanges with ⟨keys, rfl⟩
  intro hBlank
  exact ⟨hBlank.rest, hBlank.indents, hBlank.tokens⟩

namespace Lex

variable {α : Type}
variable {lexer : Lexer}

/- What keeps a lexer in blanks. -/
@[reducible]
def KeepsBlank
    (run : Lex α) : Prop :=
  Leads Lexer.StaysBlank run

/- Nothing is asked of a run from elsewhere. -/
theorem keepsBlank_iff
    {run : Lex α} :
    KeepsBlank run ↔
      ∀ lexer : Lexer,
        lexer.IsBlank →
          Meets (fun _ => True) run lexer fun _ after =>
            after.IsBlank := by
  constructor
  · intro hRun lexer hBlank
    exact (hRun lexer).imp fun _ _ hStays => hStays hBlank
  · intro hRun lexer
    by_cases hBlank : lexer.IsBlank
    · exact (hRun lexer hBlank).imp fun _ _ hAfter _ => hAfter
    · unfold Meets
      split
      · exact fun hOther => absurd hOther hBlank
      · exact trivial

/- What changes no token keeps a lexer in blanks. -/
theorem keepsBlank_scan
    {reading : Scan α}
    (hReading : reading.Drops) :
    KeepsBlank (scan reading) := by
  intro lexer
  refine (meets_scan (hReading lexer.cursor)).imp ?_
  rintro _ _ ⟨cursor, hDrops, rfl⟩ hBlank
  exact
    ⟨fun c hMem => hBlank.rest c (hDrops.subset hMem),
      hBlank.indents, hBlank.tokens⟩

/- A key can be allowed. -/
theorem keepsBlank_allowKey
    (allowed : Bool) :
    KeepsBlank (allowKey allowed) :=
  fun _ hBlank =>
    ⟨hBlank.rest, hBlank.indents, hBlank.tokens⟩

/- Gaps are left behind. -/
theorem keepsBlank_skipToToken
    (fuel : Nat) :
    KeepsBlank (skipToToken fuel) := by
  induction fuel with
  | zero => exact leads_pure _
  | succ fuel ih =>
      have hBreak (inFlow : Bool) :
          KeepsBlank (do
            scan (Scan.ensure 2)
            let _ ← scan Scan.lineBreak
            if !inFlow then
              allowKey true
            skipToToken fuel) := by
        refine
          (keepsBlank_scan
            (Scan.drops_ensure 2)).bind fun _ => ?_
        refine
          (keepsBlank_scan
            Scan.drops_lineBreak).bind fun _ => ?_
        split
        · exact (keepsBlank_allowKey true).bind fun _ => ih
        · exact ih
      rw [skipToToken]
      refine
        (keepsBlank_scan (Scan.drops_ensure 1)).bind fun _ => ?_
      refine leads_get fun lexer => ?_
      refine
        (keepsBlank_scan
          (leads_of_look fun _ => rfl)).bind fun _ => ?_
      simp only
      split
      on_goal 1 =>
        refine
          (keepsBlank_scan (Scan.drops_skip 1)).bind fun _ => ?_
      all_goals
        refine
          (keepsBlank_scan
            (Scan.drops_ensure 1)).bind fun _ => ?_
        refine
          (keepsBlank_scan (Scan.drops_span _)).bind fun _ => ?_
        refine
          (keepsBlank_scan
            Scan.drops_skipComment).bind fun _ => ?_
        refine
          (keepsBlank_scan
            (leads_of_look fun _ => rfl)).bind fun _ => ?_
        split
        · exact hBreak _
        · exact leads_pure _

/- Keys can be given up. -/
theorem changesKeys_giveUp
    (required : Option PendingKey)
    (keys : List (Option PendingKey)) :
    Leads Lexer.ChangesKeys (giveUp required keys) := by
  intro lexer
  cases required with
  | some pending => exact trivial
  | none => exact ⟨keys, rfl⟩

/- So those that reach too far can, and the innermost one. -/
theorem changesKeys_dropStale :
    Leads Lexer.ChangesKeys dropStale :=
  leads_get fun _ => changesKeys_giveUp _ _

theorem changesKeys_dropKey :
    Leads Lexer.ChangesKeys dropKey :=
  leads_get fun _ => changesKeys_giveUp _ _

/- A key can be remembered in place of the innermost one. -/
theorem changesKeys_saveKey :
    Leads Lexer.ChangesKeys saveKey := by
  refine leads_get fun lexer => ?_
  split
  · exact changesKeys_dropKey.bind fun _ _ => ⟨_, rfl⟩
  · exact leads_pure _

/- What changes keys alone keeps a lexer in blanks. -/
theorem keepsBlank_of_changesKeys
    {run : Lex α}
    (hRun : Leads Lexer.ChangesKeys run) :
    KeepsBlank run :=
  hRun.imp fun _ _ hChanges => hChanges.staysBlank

/- There is no collection to close. -/
theorem keepsBlank_unindentTo
    (column : Int) :
    KeepsBlank (unindentTo column) := by
  rw [keepsBlank_iff]
  intro lexer hBlank
  unfold unindentTo
  rw [meets_bind_of_ok get_ok]
  split
  · rw [hBlank.indents]
    exact hBlank
  · exact hBlank

/- The end of a document adds no token. -/
theorem keepsBlank_closeDocument :
    KeepsBlank closeDocument :=
  (keepsBlank_unindentTo (-1)).bind fun _ =>
    (keepsBlank_of_changesKeys
      changesKeys_dropKey).bind fun _ =>
      keepsBlank_allowKey false

variable {c : Char}
variable {rest : List Char}

/- A word is read and added. -/
theorem meets_plainScalar
    (hBlank : lexer.IsBlank)
    (hRest : lexer.cursor.rest = c :: rest)
    (hWord : BeginsWord c) :
    Meets (fun _ => True) plainScalar lexer fun _ after =>
      after.IsBlank := by
  unfold plainScalar
  apply (changesKeys_saveKey lexer).bind
  rintro _ _ ⟨keys, rfl⟩
  rw [meets_bind_of_ok (allowKey_ok false),
    meets_bind_of_ok get_ok]
  apply
    (meets_scan
      ((Scan.drops_plainScalar _ _ _).and
        (Scan.meets_plainScalar (by exact hRest) hWord _
          _))).bind
  rintro ⟨token, broken⟩ _ ⟨cursor, ⟨hDrops, hToken⟩, rfl⟩
  have hAfter
      (c : Char)
      (hMem : c ∈ cursor.rest) :
      Text.isBlank c = true :=
    hBlank.rest c (hDrops.subset hMem)
  have hTokens := hBlank.tokens.cons hToken
  simp only
  split
  · exact ⟨hAfter, hBlank.indents, hTokens⟩
  · exact ⟨hAfter, hBlank.indents, hTokens⟩

/- A blank character begins a word, or no token at all. -/
theorem meets_dispatch
    (hBlank : lexer.IsBlank)
    (hRest : lexer.cursor.rest = c :: rest) :
    Meets (fun _ => True) (dispatch c) lexer fun _ after =>
      after.IsBlank := by
  have hFirst : Text.isBlank c = true := by
    apply hBlank.rest
    rw [hRest]
    exact List.mem_cons_self
  rcases isIndicator_of_isBlank hFirst with
    ⟨hIndicator, hPoint⟩
  have hNot (d : Char) (hMem : isIndicator d = true) :
      (c == d) = false :=
    beq_of_isIndicator hIndicator hMem
  unfold Meets
  rw [dispatch_of_isIndicator hIndicator]
  change Meets _ _ _ _
  split
  · rename_i hStarts
    refine
      meets_plainScalar hBlank hRest
        ⟨hIndicator, hPoint, ?_⟩
    unfold startsPlain at hStarts
    simp only [hIndicator, hNot '-' rfl, hNot '?' rfl,
      hNot ':' rfl, Bool.or_false, Bool.false_and,
      Bool.and_false, Bool.not_eq_true'] at hStarts
    exact hStarts
  · exact trivial

/- Behind blanks the stream ends. -/
theorem meets_streamEnd
    (hBlank : lexer.IsBlank) :
    Meets (fun _ => True) streamEnd lexer fun _ after =>
      after.IsPastBlanks := by
  unfold streamEnd
  rw [meets_bind_of_ok modify_ok]
  refine
    Meets.bind
      (keepsBlank_iff.mp keepsBlank_closeDocument _ ?_) ?_
  · simp only
    split
    · exact hBlank
    · exact ⟨hBlank.rest, hBlank.indents, hBlank.tokens⟩
  · intro _ after hAfter
    exact .inr ⟨_, _, rfl, rfl, hAfter.tokens⟩

/- In blanks the next token is a word, or the end. -/
theorem meets_fetch
    (hBlank : lexer.IsBlank) :
    Meets (fun _ => True) fetch lexer fun _ after =>
      after.IsPastBlanks := by
  have hStale
      (next : Lexer)
      (hNext : next.IsPastBlanks) :
      Meets (fun _ => True) dropStale next fun _ after =>
        after.IsPastBlanks := by
    refine (changesKeys_dropStale next).imp ?_
    rintro _ _ ⟨keys, rfl⟩
    exact
      hNext.imp_left (Lexer.ChangesKeys.staysBlank ⟨keys, rfl⟩)
  unfold fetch
  refine (meets_bind_of_ok rfl).mpr ?_
  apply (keepsBlank_iff.mp (keepsBlank_skipToToken _) _
    hBlank).bind
  intro _ lexer hBlank
  apply (changesKeys_dropStale _).bind
  intro _ lexer hChanges
  have hBlank := hChanges.staysBlank hBlank
  refine (meets_bind_of_ok rfl).mpr ?_
  apply (keepsBlank_iff.mp (keepsBlank_unindentTo _) _
    hBlank).bind
  intro _ lexer hBlank
  apply (keepsBlank_iff.mp
    (keepsBlank_scan (Scan.drops_ensure 4)) _ hBlank).bind
  intro _ lexer hBlank
  refine (meets_bind_of_ok rfl).mpr ?_
  cases hRest : lexer.cursor.rest with
  | nil =>
      exact (meets_streamEnd hBlank).bind fun _ => hStale
  | cons c rest =>
      have hFirst : Text.isBlank c = true := by
        apply hBlank.rest
        rw [hRest]
        exact List.mem_cons_self
      rcases isIndicator_of_isBlank hFirst with
        ⟨hIndicator, hPoint⟩
      have hDash : c ≠ '-' :=
        beq_eq_false_iff_ne.mp
          (beq_of_isIndicator hIndicator rfl)
      have hPercent : (c == '%') = false :=
        beq_of_isIndicator hIndicator rfl
      have hNone (d : Char) (hOther : c ≠ d) :
          scan (Scan.atIndicator d) lexer =
            .ok (false, lexer) :=
        scan_look (Scan.atIndicator_of_ne hRest hOther)
      simp only [List.getElem?_cons_zero, hPercent,
        Bool.and_false, Bool.false_eq_true, if_false]
      rw [meets_bind_of_ok (hNone '-' hDash)]
      simp only [Bool.false_eq_true, if_false]
      rw [meets_bind_of_ok (hNone '.' hPoint)]
      simp only [Bool.false_eq_true, if_false]
      apply (meets_dispatch hBlank hRest).bind
      exact fun _ next hNext => hStale next (.inl hNext)

end Lex

end Yaml

end Transclusion

------------------------------------------------------------
-- Tokens of Blank Texts
------------------------------------------------------------

namespace Transclusion

namespace Yaml

/-
  Tokens behind the first of which there is nothing, the end
  of the stream, or a word.
-/
def AreBlank : List Token → Prop
  | [] => True
  | [_] => True
  | _ :: second :: rest =>
      second.IsWord ∨ second.kind = .streamEnd ∧ rest = []

/- Words are in order behind the first token. -/
theorem AreWords.exists_reverse
    {tokens : List Token}
    (hTokens : AreWords tokens) :
    ∃ start words,
      tokens.reverse = start :: words ∧
        ∀ word ∈ words, word.IsWord := by
  rcases hTokens with ⟨words, start, rfl, hWords⟩
  refine
    ⟨start, words.reverse, List.reverse_concat, ?_⟩
  intro word hMem
  exact hWords word (List.mem_reverse.mp hMem)

/- Words are tokens of a blank text, as far as they go. -/
theorem AreWords.areBlank_take
    {tokens : List Token}
    (hTokens : AreWords tokens)
    (count : Nat) :
    AreBlank (tokens.reverse.take count) := by
  rcases hTokens.exists_reverse with
    ⟨start, words, hReverse, hWords⟩
  rw [hReverse]
  cases count with
  | zero => trivial
  | succ count =>
      cases words with
      | nil =>
          rw [List.take_succ_cons, List.take_nil]
          trivial
      | cons word words =>
          cases count with
          | zero => trivial
          | succ count =>
              exact .inl (hWords word List.mem_cons_self)

/- Words and the end of the stream are those of a blank text. -/
theorem AreWords.areBlank_concat
    {tokens : List Token}
    (hTokens : AreWords tokens)
    {stop : Token}
    (hStop : stop.kind = .streamEnd) :
    AreBlank (stop :: tokens).reverse := by
  rcases hTokens.exists_reverse with
    ⟨start, words, hReverse, hWords⟩
  rw [List.reverse_cons, hReverse]
  cases words with
  | nil => exact .inr ⟨hStop, rfl⟩
  | cons word words =>
      exact .inl (hWords word List.mem_cons_self)

/- In blanks only such tokens are collected. -/
theorem Lexer.IsBlank.areBlank_collect
    {lexer : Lexer}
    (hBlank : lexer.IsBlank)
    (fuel : Nat) :
    AreBlank (TokenStream.collect fuel lexer).tokens := by
  induction fuel generalizing lexer with
  | zero =>
      have hAll :=
        hBlank.tokens.areBlank_take lexer.tokens.reverse.length
      rwa [List.take_length] at hAll
  | succ fuel ih =>
      have hFetch := Lex.meets_fetch hBlank
      unfold Meets at hFetch
      rw [TokenStream.collect]
      cases hRun : Lex.fetch.run lexer with
      | error error => exact hBlank.tokens.areBlank_take _
      | ok pair =>
          rcases pair with ⟨_, next⟩
          rw [StateT.run] at hRun
          rw [hRun] at hFetch
          simp only at hFetch ⊢
          rcases hFetch with
            hNext | ⟨stop, tokens, hTokens, hStop, hWords⟩
          · split
            · have hAll :=
                hNext.tokens.areBlank_take
                  next.tokens.reverse.length
              rwa [List.take_length] at hAll
            · exact ih hNext
          · rcases stop with ⟨_, start, stop⟩
            cases hStop
            rw [hTokens]
            exact hWords.areBlank_concat rfl

/- The tokens of a blank text are those of one. -/
theorem areBlank_ofText
    {text : List Char}
    (hText : ∀ c ∈ text, Text.isBlank c = true) :
    AreBlank (TokenStream.ofText text).tokens := by
  have hCursor :
      ∀ c ∈ (Cursor.ofText text).rest,
        Text.isBlank c = true := by
    intro c hMem
    have hPrefix :=
      readable_prefix 0 0 [] text
    exact hText c (hPrefix.subset hMem)
  unfold TokenStream.ofText
  simp only
  split
  · trivial
  · apply Lexer.IsBlank.areBlank_collect
    exact
      ⟨hCursor, rfl, [], _, rfl, List.forall_mem_nil _⟩

end Yaml

end Transclusion

------------------------------------------------------------
-- Documents of Blank Texts
------------------------------------------------------------

namespace Transclusion

namespace Yaml

/- Events that are taken come first. -/
theorem exists_events_collect
    (fuel : Nat)
    (production : Production)
    (taken : List Event) :
    ∃ more,
      (EventStream.collect fuel production taken).events =
        taken.reverse ++ more := by
  induction fuel generalizing production taken with
  | zero => exact ⟨[], (List.append_nil _).symm⟩
  | succ fuel ih =>
      rw [EventStream.collect]
      split
      · exact ⟨[], (List.append_nil _).symm⟩
      · rename_i event next _
        split
        · exact ⟨[event], List.reverse_cons⟩
        · rcases ih next (event :: taken) with ⟨more, hMore⟩
          refine ⟨event :: more, ?_⟩
          rw [hMore, List.reverse_cons, List.append_assoc]
          rfl

namespace Document

/- Items that are drafted come first. -/
theorem exists_items_ofEvents
    (error : Option SyntaxError)
    (events : List Event)
    (draft : Draft) :
    ∃ more,
      (ofEvents error events draft).1.items =
        draft.items.reverse ++ more := by
  have hFinish (error : Option ReadError) (draft : Draft) :
      ∃ more,
        (draft.finish error).items =
          draft.items.reverse ++ more :=
    ⟨[], (List.append_nil _).symm⟩
  have hAdd
      {items : List Item}
      {draft : Draft}
      {item : Item}
      (hMore :
        ∃ more,
          items = (item :: draft.items).reverse ++ more) :
      ∃ more, items = draft.items.reverse ++ more := by
    rcases hMore with ⟨more, rfl⟩
    refine ⟨item :: more, ?_⟩
    rw [List.reverse_cons, List.append_assoc]
    rfl
  induction events generalizing draft with
  | nil => exact hFinish _ _
  | cons event rest ih =>
      rcases event with ⟨kind, mark⟩
      cases kind with
      | streamStart => exact ih draft
      | streamEnd => exact hFinish _ _
      | documentStart => exact ih draft
      | documentEnd => exact hFinish _ _
      | aliasOf name =>
          unfold ofEvents
          simp only
          split
          · exact hAdd (ih (draft.add _ _))
          · exact hFinish _ _
      | scalar properties text style =>
          rcases properties with ⟨_ | anchor, tag⟩ <;>
            exact hAdd (ih _)
      | sequenceStart properties =>
          rcases properties with ⟨_ | anchor, tag⟩ <;>
            exact hAdd (ih _)
      | sequenceEnd => exact hAdd (ih (draft.add _ _))
      | mappingStart properties =>
          rcases properties with ⟨_ | anchor, tag⟩ <;>
            exact hAdd (ih _)
      | mappingEnd => exact hAdd (ih (draft.add _ _))

/- A word behind the first token is the first item. -/
theorem exists_items_of_isWord
    (first : Token)
    {word : Token}
    (hWord : word.IsWord)
    (rest : List Token)
    (fault error : Option SyntaxError) :
    ∃ text mark items,
      (ofEvents error
            (EventStream.ofTokens
              ⟨first :: word :: rest, fault⟩).events
            {}).1.items =
          ⟨.scalar none text .plain, mark⟩ :: items ∧
        text ≠ [] := by
  rcases word with ⟨_, start, stop⟩
  rcases hWord with ⟨text, rfl, hText⟩
  let opened : Production :=
    { tokens := ⟨.scalar text .plain, start, stop⟩ :: rest
      error := fault, now := .implicitDocument }
  let inside : Production :=
    { opened with
      now := .blockNode
      later := [.documentEnd]
      handles := Derive.standardHandles }
  let behind : Production :=
    { opened with
      tokens := rest
      now := .documentEnd
      handles := Derive.standardHandles }
  have hStart :
      Derive.event
          { tokens :=
              first ::
                ⟨.scalar text .plain, start, stop⟩ :: rest
            error := fault } =
        .ok (⟨.streamStart, first.start⟩, opened) := by
    rfl
  have hOpening :
      Derive.event opened =
        .ok (⟨.documentStart, start⟩, inside) := by
    rfl
  have hScalar :
      Derive.event inside =
        .ok (⟨.scalar {} text .plain, start⟩, behind) := by
    rfl
  rcases exists_events_collect (4 * rest.length + 13) behind
      [⟨.scalar {} text .plain, start⟩,
        ⟨.documentStart, start⟩,
        ⟨.streamStart, first.start⟩] with
    ⟨events, hEvents⟩
  rcases exists_items_ofEvents error events
      (({} : Draft).add (.scalar none text .plain) start) with
    ⟨items, hItems⟩
  have hFuel :
      4 * (rest.length + 1 + 1) + 8 =
        4 * rest.length + 13 + 1 + 1 + 1 := by
    omega
  refine ⟨text, start, items, ?_, hText⟩
  unfold EventStream.ofTokens
  simp only [List.length_cons]
  rw [hFuel, collect_event hStart (by simp),
    collect_event hOpening (by simp),
    collect_event hScalar (by simp), hEvents]
  exact hItems

/- Such tokens give no item, or a word as the first one. -/
theorem items_of_areBlank
    {tokens : List Token}
    (hTokens : AreBlank tokens)
    (fault error : Option SyntaxError) :
    let document :=
      (ofEvents error
        (EventStream.ofTokens ⟨tokens, fault⟩).events {}).1
    document.items = [] ∨
      ∃ text mark rest,
        document.items =
            ⟨.scalar none text .plain, mark⟩ :: rest ∧
          text ≠ [] := by
  cases tokens with
  | nil => exact .inl (by cases fault <;> rfl)
  | cons first behind =>
      cases behind with
      | nil => exact .inl (by cases fault <;> rfl)
      | cons second rest =>
          rcases hTokens with hWord | ⟨hStop, rfl⟩
          · exact
              .inr
                (exists_items_of_isWord first hWord rest fault
                  error)
          · have hKinds :
                [first, second].map Token.kind =
                  [first.kind, .streamEnd] :=
              congrArg ([first.kind, ·]) hStop
            rw [ofEvents_of_streamEnd hKinds]
            exact .inl rfl

/- A blank text has no item, or its first one is a word. -/
theorem items_ofText_of_isBlank
    {text : List Char}
    (hText : ∀ c ∈ text, Text.isBlank c = true) :
    (ofText text).1.items = [] ∨
      ∃ word mark rest,
        (ofText text).1.items =
            ⟨.scalar none word .plain, mark⟩ :: rest ∧
          word ≠ [] :=
  items_of_areBlank (areBlank_ofText hText)
    (TokenStream.ofText text).error
    (EventStream.ofText text).error

end Document

end Yaml

end Transclusion
