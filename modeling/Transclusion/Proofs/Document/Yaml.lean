import Transclusion.Proofs.Document.YamlText
import Transclusion.Proofs.Value.Parsed
import Transclusion.Proofs.Yaml.Nesting

/-
  Documents written as YAML and read again.

  Key theorems include:
    * `Transclusion.not_forall_parseText_yaml`
    * `Transclusion.parseText_yaml`

  A text that looks blank is read as null before it is
  looked at as YAML.  Nothing else is in the way of reading
  a document again.
-/

------------------------------------------------------------
-- Documents That Cannot Be Read Again
------------------------------------------------------------

namespace Transclusion

/-
  A document can be a string of one blank that is no space.
  It is written without quotes and read as null.
-/
theorem not_forall_parseText_yaml :
    ¬ ∀ text value,
      parseText text = .ok value →
        ∃ again,
          parseText value.yaml = .ok again ∧
            again.same value = true := by
  intro hAll
  have hText :
      parseText "\"\\_\"" = .ok (.string "\u00a0") := by
    decide +kernel
  have hNull :
      parseText (Value.string "\u00a0").yaml =
        .ok .null := by
    decide +kernel
  rcases hAll _ _ hText with ⟨again, hAgain, hSame⟩
  rw [hNull, Except.ok.injEq] at hAgain
  rw [← hAgain] at hSame
  cases hSame

end Transclusion

------------------------------------------------------------
-- Documents That Are Read Again
------------------------------------------------------------

namespace Transclusion

/-
  A document is read again from its YAML text, unless it is
  a string of blanks that is written without quotes.
-/
theorem parseText_yaml
    {text : String}
    {value : Value}
    (hOk : parseText text = .ok value) :
    parseText value.yaml =
      .ok (if value.looksBlank then .null else value) :=
  parseText_yaml_of_nesting (nesting_le_of_parseText hOk)
    (hasDistinctKeys_of_parseText hOk)

/- A mapping with a key of two lines, a text and a list. -/
theorem parseText_yaml_mapping :
    let text :=
      "\"a\\nb\": x\nnotes: |\n  one\n  two\nparts:\n- [~, '']\n"
    let value : Value :=
      .object
        [("a\nb", .string "x"),
          ("notes", .string "one\ntwo\n"),
          ("parts", .array [.array [.null, .string ""]])]
    parseText text = .ok value ∧
      parseText value.yaml = .ok value := by
  intro text value
  have hOk : parseText text = .ok value := by
    decide +kernel
  exact ⟨hOk, parseText_yaml hOk⟩

end Transclusion
