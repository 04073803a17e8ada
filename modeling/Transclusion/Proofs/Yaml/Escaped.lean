import Mathlib.Data.List.Basic
import Transclusion.Proofs.Yaml.Quoted
import Transclusion.Text.Quoted

/-
  Characters written by their code points.

  Key theorems include:
    * `Transclusion.Yaml.exists_mapM_padLeft`
    * `Transclusion.Yaml.quotedChar_code`

  The digits of a code are read back in either case, and the
  zeros in front of them count for nothing.
-/

------------------------------------------------------------
-- Hexadecimal Digits
------------------------------------------------------------

namespace Transclusion

namespace Yaml

variable {shape : Char → Char}

/- The digits of a number are read as the number. -/
theorem exists_mapM_toDigits
    (hShape :
      ∀ d < 16,
        hexValue? (shape (Nat.digitChar d)) = some d)
    (n : Nat) :
    ∃ values,
      ((Nat.toDigits 16 n).map shape).mapM hexValue? =
          some values ∧
        values.foldl (fun n d => n * 16 + d) 0 = n := by
  induction n using Nat.strongRecOn with
  | ind n ih =>
      by_cases hLess : n < 16
      · rw [Nat.toDigits_of_lt_base hLess]
        refine ⟨[n], ?_, by simp⟩
        rw [List.map_singleton, List.mapM_cons, hShape n hLess]
        rfl
      · rw [Nat.toDigits_of_base_le (by omega) (by omega)]
        rcases ih (n / 16) (by omega) with
          ⟨values, hRead, hValue⟩
        refine ⟨values ++ [n % 16], ?_, ?_⟩
        · rw [List.map_append, List.mapM_append, hRead,
            List.map_singleton, List.mapM_cons,
            hShape _ (Nat.mod_lt n (by omega))]
          rfl
        · rw [List.foldl_append, hValue]
          simp only [List.foldl_cons, List.foldl_nil]
          omega

/- Zeros in front of the digits count for nothing. -/
theorem exists_mapM_padLeft
    (hShape :
      ∀ d < 16,
        hexValue? (shape (Nat.digitChar d)) = some d)
    (width n : Nat) :
    ∃ values,
      (Text.padLeft width '0'
          ((Text.hexDigits n).map shape)).mapM hexValue? =
          some values ∧
        values.foldl (fun n d => n * 16 + d) 0 = n := by
  rcases exists_mapM_toDigits hShape n with
    ⟨values, hRead, hValue⟩
  unfold Text.padLeft Text.hexDigits
  generalize width - _ = count
  induction count with
  | zero => exact ⟨values, hRead, hValue⟩
  | succ count ih =>
      rcases ih with ⟨values, hRead, hValue⟩
      refine ⟨0 :: values, ?_, hValue⟩
      rw [List.replicate_succ, List.cons_append,
        List.mapM_cons, hRead]
      rfl

/- Every digit of a code has a value. -/
theorem isSome_of_mem_mapM
    {digits : List Char}
    {values : List Nat}
    (hRead : digits.mapM hexValue? = some values) :
    ∀ d ∈ digits, (hexValue? d).isSome = true := by
  induction digits generalizing values with
  | nil => exact List.forall_mem_nil _
  | cons d rest ih =>
      rw [List.mapM_cons] at hRead
      rcases Option.bind_eq_some_iff.mp hRead with
        ⟨value, hValue, hMore⟩
      rcases Option.bind_eq_some_iff.mp hMore with
        ⟨more, hRest, _⟩
      rw [List.forall_mem_cons]
      exact ⟨by rw [hValue]; rfl, ih hRest⟩

/- A character of ASCII that has a form of its own. -/
def IsVisible
    (c : Char) : Prop :=
  0x20 < c.toNat ∧ c.toNat < 0x7F

instance
    (c : Char) :
    Decidable (IsVisible c) :=
  inferInstanceAs (Decidable (_ ∧ _))

/- Visible characters may occur in texts. -/
theorem isAllowed_of_isVisible
    {c : Char}
    (hVisible : IsVisible c) :
    isAllowed c = true := by
  unfold IsVisible at hVisible
  unfold isAllowed
  simp only [Bool.or_eq_true, Bool.and_eq_true,
    decide_eq_true_eq]
  omega

/- They end no line. -/
theorem isBreak_of_isVisible
    {c : Char}
    (hVisible : IsVisible c) :
    isBreak c = false := by
  have hNot (d : Char) (hOut : ¬ IsVisible d) : c ≠ d := by
    rintro rfl
    exact hOut hVisible
  unfold IsVisible at hVisible
  unfold isBreak
  simp only [Bool.or_eq_false_iff, beq_eq_false_iff_ne]
  exact
    ⟨⟨⟨⟨hNot _ (by decide), hNot _ (by decide)⟩, by omega⟩,
      by omega⟩, by omega⟩

/- They take up a byte each. -/
theorem byteCount_of_isVisible
    {text : List Char}
    (hVisible : ∀ c ∈ text, IsVisible c) :
    byteCount text = text.length := by
  induction text with
  | nil => rfl
  | cons c rest ih =>
      rw [List.forall_mem_cons] at hVisible
      have hByte : c.utf8Size = 1 := by
        have hLess : c.val.toNat ≤ 127 :=
          Nat.le_of_lt hVisible.1.2
        exact if_pos (UInt32.le_iff_toNat_le.mpr hLess)
      rw [byteCount_cons, hByte, ih hVisible.2,
        List.length_cons, Nat.add_comm]

/- Hexadecimal digits are visible. -/
theorem isVisible_of_hexValue?
    {d : Char}
    (hDigit : (hexValue? d).isSome = true) :
    IsVisible d := by
  have hRange {first last : Char}
      (hFirst : IsVisible first)
      (hLast : IsVisible last)
      (hBetween : first ≤ d ∧ d ≤ last) :
      IsVisible d :=
    ⟨Nat.lt_of_lt_of_le hFirst.1
        (UInt32.le_iff_toNat_le.mp hBetween.1),
      Nat.lt_of_le_of_lt
        (UInt32.le_iff_toNat_le.mp hBetween.2) hLast.2⟩
  unfold hexValue? at hDigit
  split at hDigit
  · rename_i hBetween
    exact hRange (by decide) (by decide) hBetween
  split at hDigit
  · rename_i _ hBetween
    exact hRange (by decide) (by decide) hBetween
  split at hDigit
  · rename_i _ _ hBetween
    exact hRange (by decide) (by decide) hBetween
  · cases hDigit

/- The digits of a code fill its width. -/
theorem length_padLeft_hexDigits
    {width code : Nat}
    (hSome : 0 < width)
    (hWidth : code < Nat.pow 16 width) :
    (Text.padLeft width '0'
        ((Text.hexDigits code).map shape)).length =
      width := by
  have hDigits :=
    (Nat.length_toDigits_le_iff (by omega) hSome).mpr hWidth
  unfold Text.padLeft Text.hexDigits
  rw [List.length_append, List.length_replicate,
    List.length_map]
  omega

/- They are visible. -/
theorem isVisible_of_mem_padLeft
    (hShape :
      ∀ d < 16,
        hexValue? (shape (Nat.digitChar d)) = some d)
    (width code : Nat) :
    ∀ d ∈ Text.padLeft width '0'
        ((Text.hexDigits code).map shape),
      IsVisible d := by
  rcases exists_mapM_padLeft hShape width code with
    ⟨values, hRead, _⟩
  intro d hMem
  exact
    isVisible_of_hexValue? (isSome_of_mem_mapM hRead d hMem)

/- A character can be written by its code. -/
theorem quotedChar_code
    {letter c : Char}
    {width : Nat}
    (hLetter :
      Escape.ofLetter? letter = some (.code width))
    (hLine : isBreak letter = false)
    (hSome : 0 < width)
    (hWidth : c.toNat < Nat.pow 16 width)
    (hShape :
      ∀ d < 16,
        hexValue? (shape (Nat.digitChar d)) = some d) :
    QuotedChar false c
      ('\\' :: letter ::
        Text.padLeft width '0'
          ((Text.hexDigits c.toNat).map shape)) := by
  rcases exists_mapM_padLeft hShape width c.toNat with
    ⟨values, hRead, hValue⟩
  refine
    .code rfl ?_ hLine ?_ hRead hValue
  · rw [length_padLeft_hexDigits hSome hWidth]
    exact hLetter
  · intro d hMem
    exact
      isBreak_of_isVisible
        (isVisible_of_mem_padLeft hShape width c.toNat d hMem)

end Yaml

end Transclusion
