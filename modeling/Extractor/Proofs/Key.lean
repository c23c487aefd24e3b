import Extractor.Key
import Extractor.Proofs.Text.Blank
import Extractor.Proofs.Text.Search
/-!
# Keys and their written forms

The written form of a key that was read is the text it was read from, without the white space
around it (`written_parse`). So it is read as the same key again, and keys that were read from
different texts are written differently (`parse_eq_parse_iff`).
-/

namespace Extractor

open Text

namespace Key

theorem unquote?_eq_some_iff {text inner : List Char} :
    unquote? text = some inner ↔ inner ≠ [] ∧ text = '"' :: (inner ++ ['"']) := by
  unfold unquote?
  constructor
  · intro h
    split at h
    · next rest =>
      split at h
      · next c front hsuffix =>
        cases h
        exact ⟨List.cons_ne_nil _ _, by rw [isSuffixOf?_eq_some_iff.1 hsuffix]⟩
      · cases h
    · cases h
  · rintro ⟨hne, rfl⟩
    obtain ⟨c, front, rfl⟩ := List.exists_cons_of_ne_nil hne
    simp only [isSuffixOf?_eq_some_iff.2 rfl]

/-- **A key is written as it was read.** -/
theorem written_parse (text : String) : (parse text).written = trim text := by
  unfold parse
  split
  · next inner hinner =>
    obtain ⟨-, hquoted⟩ := unquote?_eq_some_iff.1 hinner
    rw [← String.toList_inj, toList_trim, hquoted, written]
    simp
  · rfl

theorem parse_trim (text : String) : parse (trim text) = parse text := by
  rw [parse, parse, toList_trim, trimChars_trimChars, trim, trim, String.toList_ofList,
    trimChars_trimChars]

theorem parse_written_parse (text : String) : parse (parse text).written = parse text := by
  rw [written_parse, parse_trim]

/-- Keys that were read are told apart by their written forms. -/
theorem parse_eq_parse_iff {text other : String} :
    parse text = parse other ↔ trim text = trim other := by
  rw [← written_parse, ← written_parse]
  refine ⟨congrArg written, fun h => ?_⟩
  rw [← parse_written_parse text, h, parse_written_parse]

end Key

/-- The name of a class is the text it was read from, without the white space around it. -/
theorem ValueClass.name_parse (text : String) : (ValueClass.parse text).name = trim text := by
  unfold ValueClass.parse
  dsimp only
  split_ifs with hplain hverbatim hmacro
  · exact hplain.symm
  · exact hverbatim.symm
  · exact hmacro.symm
  · rfl

end Extractor
