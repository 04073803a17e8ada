import Transclusion.Proofs.Document.JsonText
import Transclusion.Proofs.Value.Parsed
import Transclusion.Proofs.Yaml.Nesting

/-
  Documents written as JSON and read again.

  Key theorems include:
    * `Transclusion.not_forall_parseText_indentedJson`
    * `Transclusion.parseText_indentedJson`

  JSON escapes fewer characters than may not occur in a
  text, and it writes keys of any length.  Nothing else is
  in the way of reading a document again.
-/

------------------------------------------------------------
-- Documents That Cannot Be Read Again
------------------------------------------------------------

namespace Transclusion

/-
  A document can hold the delete character, by an escape,
  which JSON writes as it is and no text may contain.
-/
theorem not_forall_parseText_indentedJson :
    ¬ ∀ text value,
      parseText text = .ok value →
        ∃ again,
          parseText value.indentedJson = .ok again ∧
            again.same value = true := by
  intro hAll
  have hText :
      parseText "\"\\x7F\"" = .ok (.string "\x7f") := by
    decide +kernel
  rcases hAll _ _ hText with ⟨again, hAgain, _hSame⟩
  have hNone :
      (parseText
          (Value.string "\x7f").indentedJson).toOption =
        none := by
    decide +kernel
  rw [hAgain] at hNone
  cases hNone

end Transclusion

------------------------------------------------------------
-- Documents That Are Read Again
------------------------------------------------------------

namespace Transclusion

/-
  A document whose strings hold no such characters, and
  whose keys are short, is read again from its JSON text.
-/
theorem parseText_indentedJson
    {text : String}
    {value : Value}
    (hOk : parseText text = .ok value)
    (hReadable : value.isReadableJson = true) :
    parseText value.indentedJson = .ok value :=
  parseText_indentedJson_of_nesting hReadable
    (nesting_le_of_parseText hOk)
    (hasDistinctKeys_of_parseText hOk)

/- A mapping with an escape, numbers, a list and a null. -/
theorem parseText_indentedJson_mapping :
    let text := "\"a\\n\": [1.50, -2]\nb: \x7bc d: ~\x7d\n"
    let value : Value :=
      .object
        [("a\n", .array
            [.number
              (.double
                { negative := false
                  significand := 6755399441055744
                  power := 1022 }),
              .number (.integer { value := -2 })]),
          ("b", .object [("c d", .null)])]
    parseText text = .ok value ∧
      value.isReadableJson = true ∧
        parseText value.indentedJson = .ok value := by
  intro text value
  have hOk : parseText text = .ok value := by
    decide +kernel
  have hReadable : value.isReadableJson = true := by
    decide +kernel
  exact ⟨hOk, hReadable, parseText_indentedJson hOk hReadable⟩

end Transclusion
