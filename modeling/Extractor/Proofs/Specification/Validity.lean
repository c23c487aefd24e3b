import Extractor.Code.Stmt
import Extractor.Proofs.Key
import Extractor.Proofs.Path
import Extractor.Proofs.Specification.Rules
import Extractor.Proofs.Text.Trimmed
/-!
# What holds of every loaded specification

The code of a parser relies on some facts about its specification: that the path to the records can
be read back from its joined form, that no two rules of a kind have one key, and that the texts put
into the code are made of trimmed lines. All of them hold of whatever the loader returns
(`valid_of_load`), since it adds trimmed pieces only, and looks for a key before it opens a section.
-/

namespace Extractor

open Text
open Json (Slashless)

/-- The keys differ, and so do their written forms. -/
structure Key.Distinct (keys : List Key) : Prop where
  nodup : keys.Nodup
  nodup_written : (keys.map Key.written).Nodup

namespace Specification

/-- The texts that a specification may do without. -/
def optionalTexts (spec : Specification) : List String :=
  [spec.introduction, spec.validation, spec.postMapping, spec.postFields].filterMap id

/-- The texts of a specification that are put into code. -/
def texts (spec : Specification) : List String :=
  spec.rules.map (·.template) ++ [spec.entryId, spec.entryType] ++
    spec.typeOverrides.map (·.2.name) ++ spec.optionalTexts

/-- What the code of a parser relies on. -/
structure Valid (spec : Specification) : Prop where
  path_ne_nil : spec.entriesPath ≠ []
  segments : ∀ segment ∈ spec.entriesPath,
    segment ≠ "" ∧ trim segment = segment ∧ Slashless segment
  pieces_entries : pieces '/' spec.entries = spec.entriesPath
  fieldKeys : Key.Distinct (spec.fieldRules.map (·.key))
  valueKeys : Key.Distinct (spec.valueRules.map (·.key))
  overriddenKeys : Key.Distinct (spec.typeOverrides.map (·.1))
  not_blank : ∀ text ∈ spec.optionalTexts, isBlankText text = false
  lines_trimmed : ∀ text ∈ spec.texts, ∀ line ∈ pieces '\n' text, trim line = line
  /-- As code, a text keeps all its characters. -/
  lines_code : ∀ text ∈ spec.texts, "\n".intercalate (Stmt.code text).lines = text

end Specification

/-! ## Lines of a text -/

section

variable {text : String}

theorem trim_line_of_linesTrimmed (h : LinesTrimmed text.toList) :
    ∀ line ∈ pieces '\n' text, trim line = line := by
  intro line hline
  obtain ⟨chars, hchars, rfl⟩ := List.mem_map.1 hline
  rw [trim, String.toList_ofList, h chars hchars]

theorem intercalate_lines_code (h : ∀ line ∈ pieces '\n' text, trim line = line) :
    "\n".intercalate (Stmt.code text).lines = text := by
  have hlines : (Stmt.code text).lines = pieces '\n' text :=
    (List.map_congr_left h).trans (List.map_id _)
  rw [hlines, ← String.toList_inj, String.toList_intercalate, pieces, List.map_map]
  simp only [Function.comp_def, String.toList_ofList, List.map_id']
  exact List.intercalate_splitOn '\n'

end

namespace Grammar

/-! ## Texts of blocks -/

section

variable {source : String} {line : List Char × Nat} {lines : List (List Char × Nat)}

theorem not_mem_of_mem_significant (h : line ∈ significant source) : '\n' ∉ line.1 := by
  have hmem := (List.mem_filter.1 h).1
  obtain ⟨raw, hraw, htext⟩ := List.mem_map.1 (List.fst_mem_of_mem_zipIdx hmem)
  rw [← htext]
  exact fun hbreak => not_mem_of_mem_splitOn hraw ((dropBlankEnd_isPrefix raw).subset hbreak)

theorem Splits.not_mem_value {text key value : List Char} {c : Char} (h : Splits text key value)
    (hc : c ∉ text) : c ∉ value := by
  cases h with
  | inside hkey hfirst =>
    rw [hfirst.1] at hc
    exact fun hvalue => hc (List.mem_append_right _ hvalue)
  | atEnd hkey hnone => exact List.not_mem_nil

/-- Each line adds a trimmed piece, and an indented one a line break before it. -/
theorem linesTrimmed_accumulated (names : List Char → Bool) (on : Bool)
    (hlines : ∀ line ∈ lines, '\n' ∉ line.1) : LinesTrimmed (accumulated names on lines) := by
  induction lines generalizing on with
  | nil => exact .nil
  | cons line lines ih =>
    obtain ⟨hline, hothers⟩ := List.forall_mem_cons.1 hlines
    obtain ⟨text, number⟩ := line
    unfold accumulated
    split
    · cases on with
      | false => exact ih false hothers
      | true =>
        exact ((ih true hothers).prepend (trimChars_trimChars text) (not_mem_trimChars hline)).newLine
    · split
      · next key value hsplit =>
        have hvalue := (separate?_eq_some_iff.1 hsplit).not_mem_value hline
        have hrest := ih (names (trimChars key)) hothers
        split
        · exact hrest.prepend (trimChars_trimChars value) (not_mem_trimChars hvalue)
        · exact hrest
      · exact ih false hothers

theorem linesTrimmed_textFor (names : List Char → Bool) (source : String) :
    LinesTrimmed (textFor names (blocks source)) := by
  have hlines : ∀ line ∈ significant source, '\n' ∉ line.1 :=
    fun _ hline => not_mem_of_mem_significant hline
  have h := linesTrimmed_accumulated names false hlines
  rwa [accumulated_eq] at h

theorem linesTrimmed_template {opening : String} {rule : Rule}
    (h : rule ∈ rules opening (blocks source)) : LinesTrimmed rule.template.toList := by
  obtain ⟨key, -, rfl⟩ := List.mem_map.1 h
  rw [String.toList_ofList]
  exact linesTrimmed_textFor _ source

end

/-! ## Keys of blocks -/

theorem distinct_keys_rules (opening : String) (blocks : List Block) :
    Key.Distinct ((rules opening blocks).map (·.key)) := by
  have hkeys := map_key_rules opening blocks
  have hnodup : ((rules opening blocks).map (·.key)).Nodup := hkeys ▸ nodup_eraseDups _
  refine ⟨hnodup, hnodup.map_on ?_⟩
  have hparse : ∀ key ∈ (rules opening blocks).map (·.key), ∃ text, Key.parse text = key := by
    intro key hkey
    rw [hkeys, List.mem_eraseDups] at hkey
    obtain ⟨block, -, hin⟩ := List.mem_filterMap.1 hkey
    obtain ⟨inner, -, hname⟩ := keyIn?_eq_some_iff.1 hin
    exact ⟨_, hname⟩
  intro key hkey other hother hwritten
  obtain ⟨text, rfl⟩ := hparse key hkey
  obtain ⟨text', rfl⟩ := hparse other hother
  rwa [Key.written_parse, Key.written_parse, ← Key.parse_eq_parse_iff] at hwritten

/-! ## The path to the records -/

section

variable {d : Draft} {atEnd : Span} {path : List String}

theorem segments_of_entriesPath (h : d.entriesPath atEnd = .ok path) :
    path ≠ [] ∧ ∀ segment ∈ path, segment ≠ "" ∧ trim segment = segment ∧ Slashless segment := by
  have hpath := entriesPath_ok h
  have hne : "" ∉ path := by
    unfold Draft.entriesPath at h
    dsimp only at h
    split_ifs at h with hblank hcontains
    rw [← Except.ok.inj h]
    simpa using hcontains
  refine ⟨fun hnil => ?_, fun segment hsegment => ?_⟩
  · rw [hnil] at hpath
    exact Path.pieces_ne_nil _ _ (List.map_eq_nil_iff.1 hpath.symm)
  · refine ⟨fun hempty => hne (hempty ▸ hsegment), ?_⟩
    rw [hpath] at hsegment
    obtain ⟨piece, hpiece, rfl⟩ := List.mem_map.1 hsegment
    constructor
    · rw [trim, trim, String.toList_ofList, trimChars_trimChars]
    · rw [Slashless, toList_trim]
      exact not_mem_trimChars (Path.slashless_of_mem_pieces hpiece)

end

/-! ## Loading -/

theorem textUnlessBlank_eq_some {d : Draft} {slot : Slot} {text : String}
    (h : d.textUnlessBlank slot = some text) : d.text slot = text ∧ isBlankText text = false := by
  unfold Draft.textUnlessBlank at h
  split_ifs at h with hblank
  cases h
  exact ⟨rfl, Bool.eq_false_iff.2 hblank⟩

theorem linesTrimmed_of_load {source : String} {spec : Specification}
    (h : Specification.load source = .ok spec) : ∀ text ∈ spec.texts, LinesTrimmed text.toList := by
  obtain ⟨d, atEnd, hfinish, htext, hrules⟩ := draft_of_load h
  obtain ⟨format, path, -, -, rfl⟩ := finish_ok hfinish
  have hword (slot : Slot) (word : String) (hslot : slot.word? = some word) :
      LinesTrimmed (d.text slot).toList := by
    rw [htext slot word hslot, wordText, String.toList_ofList]
    exact linesTrimmed_textFor _ source
  have hoptional (slot : Slot) (word : String) (hslot : slot.word? = some word) :
      ∀ text ∈ d.textUnlessBlank slot, LinesTrimmed text.toList := by
    intro text hsome
    rw [← (textUnlessBlank_eq_some hsome).1]
    exact hword slot word hslot
  intro text hmem
  simp only [Specification.texts, Specification.rules, Specification.optionalTexts,
    hrules _ _ _ sorts_field, hrules _ _ _ sorts_value, hrules _ _ _ sorts_itemType,
    List.mem_append] at hmem
  rcases hmem with ((htemplate | hid) | hclass) | hsome
  · obtain ⟨rule, hrule, rfl⟩ := List.mem_map.1 htemplate
    rcases List.mem_append.1 hrule with hfield | hvalue
    · exact linesTrimmed_template hfield
    · exact linesTrimmed_template hvalue
  · rcases List.mem_pair.1 hid with rfl | rfl
    · exact hword .entryId _ rfl
    · exact hword .entryType _ rfl
  · simp only [List.map_map, List.mem_map, Function.comp_apply] at hclass
    obtain ⟨rule, hrule, rfl⟩ := hclass
    rw [ValueClass.name_parse, toList_trim]
    exact (linesTrimmed_template hrule).trim
  · obtain ⟨text?, hmem, htext?⟩ := List.mem_filterMap.1 hsome
    simp only [List.mem_cons, List.not_mem_nil, or_false] at hmem
    rcases hmem with rfl | rfl | rfl | rfl
    · exact hoptional .introduction _ rfl _ htext?
    · exact hoptional .validation _ rfl _ htext?
    · exact hoptional .postMapping _ rfl _ htext?
    · exact hoptional .postFields _ rfl _ htext?

/-- **Every specification that is loaded is valid.** -/
theorem valid_of_load {source : String} {spec : Specification}
    (h : Specification.load source = .ok spec) : spec.Valid := by
  have htexts := linesTrimmed_of_load h
  obtain ⟨d, atEnd, hfinish, -, hrules⟩ := draft_of_load h
  obtain ⟨format, path, -, hpath, rfl⟩ := finish_ok hfinish
  obtain ⟨hne, hsegments⟩ := segments_of_entriesPath hpath
  have hkeys {sort : Slot → Option Key} {opening : String} {slotOf : Key → Slot}
      (hsort : Sorts sort opening slotOf) : Key.Distinct ((d.rules sort).map (·.key)) := by
    rw [hrules _ _ _ hsort]
    exact distinct_keys_rules opening (blocks source)
  refine {
    path_ne_nil := hne
    segments := hsegments
    pieces_entries := Path.pieces_intercalate hne fun segment hmem => (hsegments segment hmem).2.2
    fieldKeys := hkeys sorts_field
    valueKeys := hkeys sorts_value
    overriddenKeys := ?_
    not_blank := fun text hmem => ?_
    lines_trimmed := fun text hmem => trim_line_of_linesTrimmed (htexts text hmem)
    lines_code := fun text hmem =>
      intercalate_lines_code (trim_line_of_linesTrimmed (htexts text hmem)) }
  · rw [List.map_map]
    exact hkeys sorts_itemType
  · obtain ⟨text?, hmem, hsome⟩ := List.mem_filterMap.1 hmem
    simp only [List.mem_cons, List.not_mem_nil, or_false] at hmem
    rcases hmem with rfl | rfl | rfl | rfl <;> exact (textUnlessBlank_eq_some hsome).2

/-- A path on two lines, a key of two quotes, two keys that differ by their quotes, a class on two
lines, a blank text and one that starts with a line break. -/
theorem valid_of_load_scattered :
    let source := "format: xml\nentries: feed\n  / entry\nfield[\"\"]:\nfield[ \"x\" ]: 1\n  2\n" ++
      "field[x]: 3\nvalueItemType[x]: A\n  B\nintroduction:\nentryvalidation:\n  ok()"
    ∃ spec, Specification.load source = .ok spec ∧ spec.Valid ∧
      spec.entriesPath = ["feed", "entry"] ∧
      spec.fieldRules = [⟨.symbol "\"\"", ""⟩, ⟨.literal "x", "1\n2"⟩, ⟨.symbol "x", "3"⟩] ∧
      spec.optionalTexts = ["\nok()"] := by
  intro source
  have hload : Specification.load source = .ok
      { format := .xml, entriesPath := ["feed", "entry"], introduction := none
        fieldRules := [⟨.symbol "\"\"", ""⟩, ⟨.literal "x", "1\n2"⟩, ⟨.symbol "x", "3"⟩]
        valueRules := [], typeOverrides := [(.symbol "x", .other "A\nB")]
        entryId := "", entryType := "", validation := some "\nok()"
        postMapping := none, postFields := none } := by
    decide +kernel
  exact ⟨_, hload, valid_of_load hload, rfl, rfl, rfl⟩

end Grammar

end Extractor
