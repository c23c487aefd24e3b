import Extractor.Proofs.Specification.Rules
import Extractor.Proofs.Template.Tiling
import Mathlib.Data.Set.Function
/-!
# One key in a specification and in its templates

A specification names the field that a rule fills in brackets behind `field`, and a template reads a
field by a placeholder that holds the same text. Both read the name in brackets as one key, and the
white space around it is all that two spellings of a key may differ in (`parse_spellings`).
-/

namespace Extractor

open Text (trim)
open Template (opening closing scan scanChars)

namespace Key

/-- The key of a specification's line that names a field. -/
def bracketed (name : String) : String := "field[" ++ name ++ "]"

/-- The placeholder in a template for the text of a field. -/
def placeholder (name : String) : String := "\x7b\x7b" ++ bracketed name ++ "\x7d\x7d"

section

variable {name source : String} {spec : Specification} {key : Key}

theorem toList_bracketed (name : String) :
    (bracketed name).toList = "field[".toList ++ (name.toList ++ [']']) := by
  have hclose : "]".toList = [']'] := by decide
  rw [bracketed, String.toList_append, String.toList_append, List.append_assoc, hclose]

/-- The bracket keeps a brace at the end of the name apart from those of the placeholder. -/
theorem not_closing_bracketed (h : ¬ closing <:+: name.toList) :
    ¬ closing <:+: (bracketed name).toList ++ ['\x7d'] := by
  have hstart : "field[".toList = "field".toList ++ ['['] := by decide
  have hparts : (bracketed name).toList ++ ['\x7d'] =
      "field".toList ++ '[' :: (name.toList ++ ']' :: ['\x7d']) := by
    rw [toList_bracketed, hstart]
    simp
  rw [hparts, Text.infix_append_cons_iff (by decide) (by decide),
    Text.infix_append_cons_iff (by decide) (by decide)]
  rintro (hfield | hname | hbrace)
  · exact absurd hfield (by decide)
  · exact h hname
  · exact absurd hbrace (by decide)

theorem parse_bracketed (name : String) :
    Placeholder.parse (bracketed name).toList = .field (parse name) := by
  refine Template.parse_eq_iff.2 ⟨name.toList, toList_bracketed name, ?_, ?_⟩
  · rw [String.ofList_toList, written_parse]
  · rw [String.ofList_toList]

theorem scan_placeholder (h : ¬ closing <:+: name.toList) (after : String) :
    scan (placeholder name ++ after) = .placeholder (.field (parse name)) :: scan after := by
  have htext : (placeholder name ++ after).toList =
      opening ++ ((bracketed name).toList ++ closing) ++ after.toList := by
    have hopen : "\x7b\x7b".toList = opening := by decide
    have hclose : "\x7d\x7d".toList = closing := by decide
    rw [placeholder, String.toList_append, String.toList_append, String.toList_append, hopen, hclose,
      List.append_assoc opening]
  rw [scan, htext, Template.scanChars_placeholder (not_closing_bracketed h), parse_bracketed, scan]

/-- The name in brackets is malformed if it is blank, and else the key of a field. -/
theorem ofKey?_bracketed (name : String) (keySpan : Span) :
    Slot.ofKey? (bracketed name) keySpan =
      if Text.isBlankText name then .error (.malformedKey (bracketed name) "field[" keySpan)
      else .ok (some (.field (parse name))) := by
  have hprefix : "field[".toList.isPrefixOf? (bracketed name).toList = some (name.toList ++ [']']) :=
    Text.isPrefixOf?_eq_some_iff.2 (toList_bracketed name)
  have hword : Slot.ofWord? (bracketed name) = none := by
    rw [Option.eq_none_iff_forall_ne_some]
    intro slot hslot
    exact Slot.not_isPrefix_of_ofWord? hslot ("field[", .field) List.mem_cons_self
      ⟨_, (toList_bracketed name).symm⟩
  have hinner : Slot.bracketed? (name.toList ++ [']']) =
      if Text.isBlankText name then none else some name := by
    rw [Slot.bracketed?, Text.isSuffixOf?_eq_some_iff.2 rfl, Text.isBlankText]
    simp only [String.ofList_toList]
  rw [Slot.ofKey?, hword]
  simp only [Slot.openings, Slot.ofBracketed?, hprefix, hinner]
  split_ifs <;> rfl

theorem keyIn?_bracketed_iff {line : List Char} : Grammar.keyIn? "field[" line = some key ↔
    ∃ name, line = (bracketed name).toList ∧ parse name = key := by
  rw [Grammar.keyIn?_eq_some_iff]
  constructor
  · rintro ⟨inner, hline, hkey⟩
    have hname : (String.ofList inner).toList = inner := String.toList_ofList
    refine ⟨String.ofList inner, ?_, hkey⟩
    rw [toList_bracketed, hname]
    exact hline
  · rintro ⟨name, hline, hkey⟩
    exact ⟨name.toList, hline.trans (toList_bracketed name), by rw [String.ofList_toList, hkey]⟩

/-- A key has a rule if some line spells it. -/
theorem mem_fieldRules_iff (h : Specification.load source = .ok spec) :
    key ∈ spec.fieldRules.map (·.key) ↔
      ∃ block ∈ Grammar.blocks source, ∃ name, block.key = (bracketed name).toList ∧
        parse name = key := by
  obtain ⟨d, atEnd, hfinish, -, hrules⟩ := Grammar.draft_of_load h
  obtain ⟨format, path, -, -, rfl⟩ := Grammar.finish_ok hfinish
  rw [hrules _ _ _ Grammar.sorts_field, Grammar.map_key_rules, List.mem_eraseDups, List.mem_filterMap]
  simp only [keyIn?_bracketed_iff]

end

/-- **Keys are read from their spellings.** A key is written as the text that it was read from, white
space around it apart, and so read again as the same key. Two texts are read as one key exactly if
nothing else is different between them. A placeholder for the field with a name reads the key that a
specification's line with this name fills, and there is a rule for it exactly if some line spells it. -/
theorem parse_spellings (name other : String) :
    ((parse name).written = trim name ∧ parse (parse name).written = parse name) ∧
      Set.InjOn written (Set.range parse) ∧
      (parse name = parse other ↔ trim name = trim other) ∧
      (¬ closing <:+: name.toList → ∀ after,
        scan (placeholder name ++ after) = .placeholder (.field (parse name)) :: scan after) ∧
      (∀ keySpan, Slot.ofKey? (bracketed name) keySpan =
        if Text.isBlankText name then .error (.malformedKey (bracketed name) "field[" keySpan)
        else .ok (some (.field (parse name)))) ∧
      ∀ source spec, Specification.load source = .ok spec →
        (parse name ∈ spec.fieldRules.map (·.key) ↔
          ∃ block ∈ Grammar.blocks source, ∃ spelling,
            block.key = (bracketed spelling).toList ∧ trim spelling = trim name) := by
  refine ⟨⟨written_parse name, parse_written_parse name⟩, ?_, parse_eq_parse_iff,
    scan_placeholder, ofKey?_bracketed name, fun source spec hload => ?_⟩
  · rintro _ ⟨name, rfl⟩ _ ⟨other, rfl⟩ hwritten
    rwa [written_parse, written_parse, ← parse_eq_parse_iff] at hwritten
  · simp only [mem_fieldRules_iff hload, parse_eq_parse_iff]

/-- A name with a brace, a quote and spaces in its quotes, spelled in two ways. -/
theorem parse_spellings_quoted :
    let name := "\" a\"\x7d\" "
    let source := "format: xml\nentries: a\nfield[\u3000\" a\"\x7d\"]: 1"
    parse name = .literal " a\"\x7d" ∧ (parse name).written = "\" a\"\x7d\"" ∧
      scan (placeholder name) = [.placeholder (.field (parse name))] ∧
      ∃ spec, Specification.load source = .ok spec ∧ parse name ∈ spec.fieldRules.map (·.key) := by
  intro name source
  obtain ⟨⟨hwritten, -⟩, -, -, hscan, -, hrule⟩ := parse_spellings name name
  have hload : Specification.load source = .ok
      { format := .xml, entriesPath := ["a"], introduction := none
        fieldRules := [⟨.literal " a\"\x7d", "1"⟩], valueRules := [], typeOverrides := []
        entryId := "", entryType := "", validation := none, postMapping := none
        postFields := none } := by
    decide +kernel
  refine ⟨by decide +kernel, hwritten.trans (by decide +kernel), ?_, _, hload, ?_⟩
  · have hplaceholder := hscan (by decide +kernel) ""
    have hnothing : scan "" = [] := Template.scanChars_of_none rfl
    rwa [String.append_empty, hnothing] at hplaceholder
  · refine (hrule source _ hload).2 ⟨⟨(bracketed "\u3000\" a\"\x7d\"").toList, ['1']⟩, ?_, ?_⟩
    · decide +kernel
    · exact ⟨"\u3000\" a\"\x7d\"", rfl, by decide +kernel⟩

end Key

end Extractor
