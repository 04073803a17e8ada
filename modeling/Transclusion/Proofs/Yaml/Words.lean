import Transclusion.Proofs.Number.Text
import Transclusion.Proofs.Yaml.FlowLexing

/-
  Words: the texts of numbers and of the other scalars that
  are no strings.

  Key definitions include:
    * `Transclusion.Yaml.IsPlainWord`

  Key theorems include:
    * `Transclusion.Yaml.isPlainWord_numberText`
    * `Transclusion.Yaml.IsPlainWord.flowReads`

  A word needs no quotes anywhere: no character of it has a
  meaning of its own behind a letter or a digit.
-/

------------------------------------------------------------
-- Words
------------------------------------------------------------

namespace Transclusion

namespace Yaml

/- A character of numbers, or of words for other scalars. -/
def isPlainChar
    (c : Char) : Bool :=
  c.isAlphanum || c == '+' || c == '-' || c == '.'

/- A word begins with a letter or digit, or a dash and one. -/
structure IsPlainWord
    (text : List Char) : Prop where
  chars : ∀ c ∈ text, isPlainChar c = true
  first :
    ∃ c more,
      text = c :: more ∧
        (c.isAlphanum = true ∨
          c = '-' ∧ more.head?.any Char.isAlphanum = true)

variable {c : Char}
variable {text : List Char}

/- The characters of words are visible ones of ASCII. -/
theorem toNat_of_isPlainChar
    (hChar : isPlainChar c = true) :
    0x20 < c.toNat ∧ c.toNat < 0x7F := by
  unfold isPlainChar Char.isAlphanum Char.isAlpha Char.isUpper
    Char.isLower Char.isDigit at hChar
  simp only [Bool.or_eq_true, Bool.and_eq_true,
    decide_eq_true_eq, beq_iff_eq, ge_iff_le,
    UInt32.le_iff_toNat_le] at hChar
  rcases hChar with ((hRange | rfl) | rfl) | rfl
  · have hCode : c.val.toNat = c.toNat := rfl
    simp only [hCode, Char.reduceVal, UInt32.reduceToNat]
      at hRange
    omega
  all_goals decide

/- The characters of words are no gaps. -/
theorem isGap_of_isPlainChar
    (hChar : isPlainChar c = true) :
    isGap (some c) = false := by
  have hCode := toNat_of_isPlainChar hChar
  have hNot (d : Char) (hOut : d.toNat ≤ 0x20 ∨ 0x7F ≤ d.toNat) :
      c ≠ d := by
    rintro rfl
    omega
  change (isWhite c || isBreak c) = false
  unfold isWhite isBreak
  simp only [Bool.or_eq_false_iff, beq_eq_false_iff_ne]
  exact
    ⟨⟨hNot _ (by decide), hNot _ (by decide)⟩,
      ⟨⟨⟨hNot _ (by decide), hNot _ (by decide)⟩, by omega⟩,
        by omega⟩, by omega⟩

/- The characters of words may occur in texts. -/
theorem isAllowed_of_isPlainChar
    (hChar : isPlainChar c = true) :
    isAllowed c = true := by
  have hCode := toNat_of_isPlainChar hChar
  unfold isAllowed
  simp only [Bool.or_eq_true, Bool.and_eq_true,
    decide_eq_true_eq]
  omega

namespace IsPlainWord

/- A word is a word of plain texts, inside and outside. -/
theorem plainText
    (hWord : IsPlainWord text)
    (inFlow : Bool) :
    PlainText inFlow text := by
  rcases hWord.first with ⟨first, more, rfl, _⟩
  refine .word ⟨?_, ?_, ?_⟩ (List.cons_ne_nil _ _)
  · intro c hMem
    exact isGap_of_isPlainChar (hWord.chars c hMem)
  · intro hLast
    have hColon :=
      hWord.chars ':' (List.mem_of_getLast? hLast)
    cases hColon
  · intro _ c hMem
    have hChar := hWord.chars c hMem
    constructor
    · rintro rfl
      cases hChar
    · rw [Bool.eq_false_iff]
      intro hIndicator
      have hNone :
          ∀ d ∈ ",[]\x7b\x7d".toList, isPlainChar d = false := by
        exact List.forall_iff_forall_mem.mp (by decide)
      rw [hNone c (List.contains_iff_mem.mp hIndicator)]
        at hChar
      cases hChar

/- What stands behind the dash in front of a word. -/
theorem second
    (hWord : IsPlainWord text)
    (rest : List Char)
    (hDash : text.head? = some '-') :
    ∃ c, (text ++ rest)[1]? = some c ∧ c.isAlphanum = true := by
  rcases hWord.first with ⟨first, more, rfl, hFirst⟩
  cases hDash
  rcases hFirst with hFirst | ⟨_, hSecond⟩
  · cases hFirst
  · cases more with
    | nil => cases hSecond
    | cons c tail => exact ⟨c, rfl, hSecond⟩

/- A word begins a token that is a scalar. -/
theorem beginsToken
    (hWord : IsPlainWord text)
    (rest : List Char) :
    BeginsToken (text ++ rest) := by
  have hSecond := hWord.second rest
  rcases hWord.first with ⟨first, more, rfl, hFirst⟩
  have hChar := hWord.chars first List.mem_cons_self
  have hCode := toNat_of_isPlainChar hChar
  refine
    beginsToken_cons (isGap_of_isPlainChar hChar) ?_ (by omega)
      ?_ ?_
  · rintro rfl
    cases hChar
  · rintro rfl
    cases hChar
  · rintro (hDashes | hPoints)
    · have hFirst : first = '-' := (List.cons.inj hDashes).1
      rcases hSecond (congrArg some hFirst) with
        ⟨c, hNext, hLetter⟩
      have hDash : (first :: more ++ rest)[1]? = some '-' := by
        have hTake := congrArg (·[1]?) hDashes
        simpa using hTake
      rw [hNext] at hDash
      cases hDash
      cases hLetter
    · have hFirst : first = '.' := (List.cons.inj hPoints).1
      subst hFirst
      rcases hFirst with hLetter | ⟨hDash, _⟩
      · cases hLetter
      · cases hDash

/- A word is a plain scalar. -/
theorem startsPlain
    (hWord : IsPlainWord text)
    (rest : List Char)
    (inFlow : Bool) :
    ∀ c ∈ text.head?,
      Lex.startsPlain inFlow c (text ++ rest)[1]? = true := by
  have hSecond := hWord.second rest
  rcases hWord.first with ⟨first, more, rfl, hFirst⟩
  have hChar := hWord.chars first List.mem_cons_self
  rintro c hMem
  cases hMem
  unfold Lex.startsPlain
  rw [Bool.or_eq_true_iff, Bool.or_eq_true_iff]
  left
  rcases hFirst with hLetter | ⟨rfl, _⟩
  · left
    have hGap := isGap_of_isPlainChar hChar
    change (isWhite first || isBreak first) = false at hGap
    have hIndicator : Lex.isIndicator first = false := by
      rw [Bool.eq_false_iff]
      intro hIndicator
      have hNone :
          ∀ d ∈ "-?:,[]\x7b\x7d#&*!|>'\"%@`".toList,
            d.isAlphanum = false := by
        exact List.forall_iff_forall_mem.mp (by decide)
      rw [hNone first (List.contains_iff_mem.mp hIndicator)]
        at hLetter
      cases hLetter
    rw [hGap, hIndicator]
    rfl
  · right
    rcases hSecond rfl with ⟨d, hNext, hLetter⟩
    have hPlain : isPlainChar d = true := by
      unfold isPlainChar
      rw [hLetter]
      rfl
    have hGap := isGap_of_isPlainChar hPlain
    rw [hNext, Option.any_some,
      (Bool.or_eq_false_iff.mp hGap).1]
    rfl

/- What stands behind a dash is no gap. -/
theorem isGap_second
    (hWord : IsPlainWord text)
    (rest : List Char)
    (hDash : text.head? = some '-') :
    isGap (text ++ rest)[1]? = false := by
  rcases hWord.second rest hDash with ⟨c, hNext, hLetter⟩
  rw [hNext]
  apply isGap_of_isPlainChar
  unfold isPlainChar
  rw [hLetter]
  rfl

/- A word is read in flow collections and outside. -/
theorem flowReads
    {size depth : Nat}
    {rest : List Char}
    {allowed : Bool}
    (hWord : IsPlainWord text)
    (hEnds : EndsPlain (decide (depth ≠ 0)) (trimGap rest)) :
    FlowReads size ⟨text ++ rest, depth, allowed⟩
      [.scalar text .plain] ⟨rest, depth, false⟩ :=
  FlowReads.plain (hWord.plainText _) (hWord.beginsToken rest)
    (hWord.startsPlain rest _) (hWord.isGap_second rest) hEnds

end IsPlainWord

/- The word for nothing. -/
theorem isPlainWord_nullText :
    IsPlainWord "null".toList :=
  ⟨List.forall_iff_forall_mem.mp (by decide), _, _, rfl,
    Or.inl rfl⟩

/- The words for Boolean values. -/
theorem isPlainWord_boolText
    (b : Bool) :
    IsPlainWord (boolText b).toList := by
  cases b with
  | false =>
      exact
        ⟨List.forall_iff_forall_mem.mp (by decide), _, _, rfl,
          Or.inl rfl⟩
  | true =>
      exact
        ⟨List.forall_iff_forall_mem.mp (by decide), _, _, rfl,
          Or.inl rfl⟩

end Yaml

end Transclusion

------------------------------------------------------------
-- Numbers
------------------------------------------------------------

namespace Transclusion

namespace Yaml

/- A digit is a character of words. -/
theorem isPlainChar_of_isDigit
    {c : Char}
    (hDigit : c.isDigit = true) :
    isPlainChar c = true := by
  unfold isPlainChar Char.isAlphanum
  rw [hDigit, Bool.or_true]
  rfl

/- Digits are characters of words. -/
theorem isPlainChar_of_mem_toDigits
    {n : Nat}
    (c : Char)
    (hMem : c ∈ Nat.toDigits 10 n) :
    isPlainChar c = true :=
  isPlainChar_of_isDigit (isDigit_of_mem_toDigits hMem)

/- Zeros are characters of words. -/
theorem isPlainChar_of_mem_zeros
    {count : Nat}
    (c : Char)
    (hMem : c ∈ List.replicate count '0') :
    isPlainChar c = true :=
  isPlainChar_of_isDigit (Decimal.isDigit_of_mem_zeros c hMem)

variable {layout : Layout}

/- A number without an exponent has characters of words. -/
theorem isPlainChar_of_mem_positional
    (d : Decimal) :
    ∀ c ∈ d.positional, isPlainChar c = true := by
  have hDigits : ∀ c ∈ d.digitText, isPlainChar c = true :=
    isPlainChar_of_mem_toDigits
  unfold Decimal.positional
  simp only
  split
  · simp only [List.forall_mem_append]
    exact
      ⟨⟨hDigits, isPlainChar_of_mem_zeros⟩,
        List.forall_iff_forall_mem.mp (by decide)⟩
  · split
    · simp only [List.forall_mem_append,
        List.forall_mem_cons]
      exact
        ⟨fun c hMem => hDigits c (List.mem_of_mem_take hMem),
          rfl,
          fun c hMem => hDigits c (List.mem_of_mem_drop hMem)⟩
    · simp only [List.forall_mem_append]
      exact
        ⟨⟨List.forall_iff_forall_mem.mp (by decide),
          isPlainChar_of_mem_zeros⟩, hDigits⟩

/- A number with an exponent has characters of words. -/
theorem isPlainChar_of_mem_scientific
    (hPlus : layout.plus = [] ∨ layout.plus = ['+'])
    (d : Decimal) :
    ∀ c ∈ d.scientific layout, isPlainChar c = true := by
  have hDigits : ∀ c ∈ d.digitText, isPlainChar c = true :=
    isPlainChar_of_mem_toDigits
  have hSign :
      ∀ c ∈ if d.point - 1 < 0 then ['-'] else layout.plus,
        isPlainChar c = true := by
    split
    · exact List.forall_mem_singleton.mpr rfl
    · rcases hPlus with hPlus | hPlus
      · rw [hPlus]
        exact List.forall_mem_nil _
      · rw [hPlus]
        exact List.forall_mem_singleton.mpr rfl
  unfold Decimal.scientific
  simp only [List.forall_mem_append, List.forall_mem_cons]
  refine ⟨⟨?_, rfl, hSign⟩, isPlainChar_of_mem_toDigits⟩
  split
  · exact List.forall_mem_nil _
  · rename_i digit hText
    rw [hText] at hDigits
    exact hDigits
  · rename_i digit rest _ hText
    rw [hText, List.forall_mem_cons] at hDigits
    simp only [List.forall_mem_cons]
    exact ⟨hDigits.1, rfl, hDigits.2⟩

/- A magnitude is a word. -/
theorem isPlainWord_decimalText
    (hPlus : layout.plus = [] ∨ layout.plus = ['+'])
    (d : Decimal) :
    (∀ c ∈ d.text layout, isPlainChar c = true) ∧
      ∃ first more,
        d.text layout = first :: more ∧
          first.isAlphanum = true := by
  constructor
  · unfold Decimal.text
    split
    · exact isPlainChar_of_mem_positional d
    · exact isPlainChar_of_mem_scientific hPlus d
  · rcases (d.writesDecimal_text hPlus).shape with
      ⟨whole, mark, tail, hText, hSome, hWhole, _⟩
    rcases List.exists_cons_of_ne_nil hSome with
      ⟨first, more, rfl⟩
    refine ⟨first, _, hText, ?_⟩
    unfold Char.isAlphanum
    rw [hWhole first List.mem_cons_self, Bool.or_true]

/- A word stays one behind a sign. -/
theorem isPlainWord_signed
    (negative : Bool)
    {text : List Char}
    (hChars : ∀ c ∈ text, isPlainChar c = true)
    (hFirst :
      ∃ first more,
        text = first :: more ∧ first.isAlphanum = true) :
    IsPlainWord
      ((if negative then ['-'] else []) ++ text) := by
  rcases hFirst with ⟨first, more, rfl, hFirst⟩
  cases negative with
  | false => exact ⟨hChars, _, _, rfl, Or.inl hFirst⟩
  | true =>
      exact
        ⟨List.forall_mem_cons.mpr ⟨rfl, hChars⟩, _, _, rfl,
          Or.inr ⟨rfl, hFirst⟩⟩

/- The text of a number is a word. -/
theorem isPlainWord_numberText
    (hPlus : layout.plus = [] ∨ layout.plus = ['+'])
    (n : Number) :
    IsPlainWord (n.text layout).toList := by
  cases n with
  | integer n =>
      have hFirst :
          ∃ first more,
            Nat.toDigits 10 n.value.natAbs = first :: more ∧
              first.isAlphanum = true := by
        rcases List.exists_cons_of_ne_nil
            (Nat.toDigits_ne_nil) with
          ⟨first, more, hDigits⟩
        refine ⟨first, more, hDigits, ?_⟩
        have hDigit : first.isDigit = true :=
          isDigit_of_mem_toDigits
            (hDigits ▸ List.mem_cons_self)
        unfold Char.isAlphanum
        rw [hDigit, Bool.or_true]
      have hWord :=
        isPlainWord_signed (decide (n.value < 0))
          isPlainChar_of_mem_toDigits hFirst
      rw [Number.text, integerText, String.toList_ofList]
      unfold integerChars
      split
      · rename_i hNegative
        rw [if_pos (decide_eq_true hNegative)] at hWord
        exact hWord
      · rename_i hNegative
        rw [if_neg (by simpa using hNegative)] at hWord
        exact hWord
  | double d =>
      rw [Number.text, Double.text, String.toList_ofList]
      rcases isPlainWord_decimalText hPlus d.shortest with
        ⟨hChars, hFirst⟩
      exact isPlainWord_signed d.negative hChars hFirst

end Yaml

end Transclusion
