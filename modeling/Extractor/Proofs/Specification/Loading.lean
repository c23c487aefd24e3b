import Extractor.Proofs.Specification.Slots
import Extractor.Proofs.Text.Blank
/-!
# The loader and the grammar

`load` takes a text exactly if the grammar accepts it, and refuses any other text for the first
condition it breaks (`load_ok_iff_accepted`). Each stage has one lemma for when it succeeds and one
for its faults: reading lines, adding them to a draft, finishing the draft.
-/

namespace Extractor.Grammar

open Text

/-- The line of a specification that is read from a significant line of the source. -/
inductive Reads : List Char × Nat → Line → Prop
  | continuation {text : List Char} {number : Nat} {span : Span} (hindented : Indented text)
      (hline : span.start.line = number) :
      Reads (text, number) (.continuation (String.ofList (trimChars text)) span)
  | entry {text key value : List Char} {number : Nat} {keySpan span : Span}
      (hindented : ¬ Indented text) (hsplit : Line.separate? text = some (key, value))
      (hline : keySpan.start.line = number) :
      Reads (text, number)
        (.entry (String.ofList (trimChars key)) (String.ofList (trimChars value)) keySpan span)

/-! ## Reading lines -/

section

variable {source : List Char × Nat} {sources : List (List Char × Nat)} {line : Line}
  {lines : List Line}

theorem Reads.separated (h : Reads source line) : Separated source.1 := by
  rw [separated_iff]
  cases h with
  | continuation hindented hline => exact .inl hindented
  | entry hindented hsplit hline => exact .inr ⟨_, _, hsplit⟩

theorem separated_of_reads (h : List.Forall₂ Reads sources lines) :
    ∀ source ∈ sources, Separated source.1 := by
  induction h with
  | nil => exact fun _ hmem => absurd hmem List.not_mem_nil
  | cons hline _ ih => exact List.forall_mem_cons.2 ⟨hline.separated, ih⟩

/-- What becomes of one line. -/
theorem read_spec (byte number : Nat) (raw : List Char) :
    match Line.read byte number raw with
    | .ok none => ¬ Significant (dropBlankEnd raw)
    | .ok (some line) => Significant (dropBlankEnd raw) ∧ Reads (dropBlankEnd raw, number) line
    | .error fault =>
      Significant (dropBlankEnd raw) ∧ ¬ Separated (dropBlankEnd raw) ∧
        fault.kind = .missingSeparator ∧ fault.span.start.line = number := by
  generalize hread : Line.read byte number raw = result
  unfold Line.read at hread
  split at hread
  · next h =>
    subst result
    rw [h]
    exact fun hsignificant => hsignificant.1 rfl
  · next r h =>
    subst result
    rw [h]
    exact fun hsignificant => hsignificant.2 rfl
  · next c r hnot h =>
    have hsignificant : Significant (c :: r) :=
      ⟨List.cons_ne_nil c r, fun hc => hnot (Option.some.inj hc)⟩
    rw [h]
    by_cases hblank : isBlank c = true
    · rw [if_pos hblank] at hread
      subst result
      exact ⟨hsignificant, .continuation hblank rfl⟩
    · rw [if_neg hblank] at hread
      cases hsplit : Line.separate? (c :: r) with
      | some split =>
        rw [hsplit] at hread
        subst result
        exact ⟨hsignificant, .entry hblank hsplit rfl⟩
      | none =>
        rw [hsplit] at hread
        subst result
        refine ⟨hsignificant, ?_, rfl, rfl⟩
        rw [separated_iff, hsplit]
        rintro (hindented | ⟨_, _, hnone⟩)
        · exact hblank hindented
        · exact nomatch hnone

/-- Either every significant line is read, or the first one without a separator is found. -/
theorem readFrom_cases (byte number : Nat) (raws : List (List Char)) :
    (∃ lines, Line.readFrom byte number raws = .ok lines ∧
        List.Forall₂ Reads (significantFrom number raws) lines) ∨
      ∃ fault, Line.readFrom byte number raws = .error fault ∧ fault.kind = .missingSeparator ∧
        FirstFailing Separated (significantFrom number raws) fault.span.start.line := by
  induction raws generalizing byte number with
  | nil => exact .inl ⟨[], rfl, .nil⟩
  | cons raw raws ih =>
    have hspec := read_spec byte number raw
    unfold Line.readFrom
    cases hread : Line.read byte number raw with
    | error fault =>
      rw [hread] at hspec
      obtain ⟨hsignificant, hseparated, hkind, hline⟩ := hspec
      refine .inr ⟨fault, rfl, hkind, ?_⟩
      rw [significantFrom_cons_of_significant hsignificant, hline]
      exact .head hseparated
    | ok line? =>
      rw [hread] at hspec
      rcases ih (byte + byteSize raw + 1) (number + 1) with
        ⟨lines, hrest, hreads⟩ | ⟨fault, hrest, hkind, hfirst⟩
      · rw [hrest]
        refine .inl ⟨_, rfl, ?_⟩
        cases line? with
        | none => rwa [significantFrom_cons_of_not_significant hspec]
        | some line =>
          rw [significantFrom_cons_of_significant hspec.1]
          exact .cons hspec.2 hreads
      · rw [hrest]
        refine .inr ⟨fault, rfl, hkind, ?_⟩
        cases line? with
        | none => rwa [significantFrom_cons_of_not_significant hspec]
        | some line =>
          rw [significantFrom_cons_of_significant hspec.1]
          exact .cons hspec.2.separated hfirst

end

/-! ## Adding the lines to a draft -/

/-- The slot that a line of the source gives a text for, behind a line that leaves `current`. -/
inductive Gives (current : Option (Option Slot)) (source : List Char) :
    Option Slot → String → Prop
  | continuation {slot? : Option Slot} (hcurrent : current = some slot?)
      (hindented : Indented source) :
      Gives current source slot? ("\n" ++ String.ofList (trimChars source))
  | entry {slot? : Option Slot} {key value : List Char} {keySpan : Span}
      (hindented : ¬ Indented source) (hsplit : Line.separate? source = some (key, value))
      (hkey : Slot.ofKey? (String.ofList (trimChars key)) keySpan = .ok slot?) :
      Gives current source slot? (String.ofList (trimChars value))

/-- The keys of a sort are those of one slot. -/
def Names (names : List Char → Bool) (slot : Slot) : Prop :=
  ∀ key keySpan slot?, Slot.ofKey? (String.ofList key) keySpan = .ok slot? →
    (names key = true ↔ slot? = some slot)

section

variable {source : List Char × Nat} {sources : List (List Char × Nat)} {line : Line}
  {lines : List Line} {slot : Slot} {slot? : Option Slot} {text : String}
  {names : List Char → Bool} {current : Option (Option Slot)}

/-- All that can become of a line: it gives a text for a slot, or has one of two defects. -/
theorem step_cases (d : Draft) (hreads : Reads source line) :
    (∃ next slot? text, d.step line = .ok next ∧ Draft.Adds d next slot? text ∧
        Gives d.current source.1 slot? text) ∨
      ∃ fault, d.step line = .error fault ∧ fault.span.start.line = source.2 ∧
        (fault.kind = .orphanContinuation ∧ d.current = none ∧ Indented source.1 ∨
          fault.kind = .malformedKey ∧ ¬ Indented source.1 ∧ ¬ KeyClosed source.1) := by
  cases hreads with
  | @continuation text number span hindented hline =>
    cases hcurrent : d.current with
    | none =>
      refine .inr ⟨.orphanContinuation span, ?_, hline, .inl ⟨rfl, rfl, hindented⟩⟩
      unfold Draft.step
      rw [hcurrent]
    | some slot? =>
      obtain ⟨next, hstep, hadds⟩ := Draft.step_continuation hcurrent
      exact .inl ⟨next, slot?, _, hstep, hadds, .continuation rfl hindented⟩
  | @entry text key value number keySpan span hindented hsplit hline =>
    cases hkey : Slot.ofKey? (String.ofList (trimChars key)) keySpan with
    | ok slot? =>
      obtain ⟨next, hstep, hadds⟩ := Draft.step_entry hkey
      exact .inl ⟨next, slot?, _, hstep, hadds, .entry hindented hsplit hkey⟩
    | error fault =>
      obtain ⟨hclosed, hkind, hspan⟩ := Slot.ofKey?_error hkey
      rw [String.toList_ofList, ← keyClosed_iff hindented hsplit] at hclosed
      refine .inr ⟨fault, ?_, by rw [hspan, hline], .inr ⟨hkind, hindented, hclosed⟩⟩
      simp only [Draft.step, hkey]
      rfl

theorem Gives.keyClosed (h : Gives current source.1 slot? text) : KeyClosed source.1 := by
  cases h with
  | continuation hcurrent hindented => exact .inl hindented
  | entry hindented hsplit hkey =>
    have hclosed := Slot.ofKey?_ok hkey
    rw [String.toList_ofList] at hclosed
    exact (keyClosed_iff hindented hsplit).2 hclosed

theorem Gives.begun (h : Gives none source.1 slot? text) : ¬ Indented source.1 := by
  cases h with
  | continuation hcurrent hindented => exact nomatch hcurrent
  | entry hindented hsplit hkey => exact hindented

theorem Gives.accumulated (h : Gives current source.1 slot? text) (hnames : Names names slot) :
    accumulated names (current = some (some slot)) (source :: sources) =
      (if slot? = some slot then text else "").toList ++
        accumulated names (some slot? = some (some slot)) sources := by
  cases h with
  | continuation hcurrent hindented =>
    rw [accumulated_cons_of_indented hindented, hcurrent]
    by_cases hslot : slot? = some slot <;> simp [hslot]
  | entry hindented hsplit hkey =>
    rw [accumulated_cons_of_separate hindented hsplit]
    have hname := hnames _ _ _ hkey
    by_cases hslot : slot? = some slot
    · simp [hslot, hname.2 hslot]
    · simp [hslot, Bool.eq_false_iff.2 (mt hname.1 hslot)]

theorem Gives.begun_head (h : Gives current source.1 slot? text) :
    current = none → ∀ line ∈ (source :: sources).head?, ¬ Indented line.1 := by
  rintro rfl _ ⟨⟩
  exact h.begun

/-- Either every line gives a text, and the draft holds what they add up to, or the first line with
a defect is found. -/
theorem readLines_cases (d : Draft) (hreads : List.Forall₂ Reads sources lines) :
    ((d.readLines lines).2 = none ∧
        (d.current = none → ∀ source ∈ sources.head?, ¬ Indented source.1) ∧
        (∀ source ∈ sources, KeyClosed source.1) ∧
        ∀ names slot, Names names slot → ((d.readLines lines).1.text slot).toList =
          (d.text slot).toList ++ accumulated names (d.current = some (some slot)) sources) ∨
      ∃ fault, (d.readLines lines).2 = some fault ∧
        (fault.kind = .orphanContinuation ∧ d.current = none ∧
            (∃ text after, sources = (text, fault.span.start.line) :: after ∧ Indented text) ∨
          fault.kind = .malformedKey ∧
            (d.current = none → ∀ source ∈ sources.head?, ¬ Indented source.1) ∧
            FirstFailing KeyClosed sources fault.span.start.line) := by
  induction hreads generalizing d with
  | nil =>
    refine .inl ⟨rfl, fun _ => nofun, fun _ hmem => absurd hmem List.not_mem_nil, ?_⟩
    intro names slot _
    simp [Draft.readLines, Grammar.accumulated]
  | @cons source line sources lines hline hreads ih =>
    unfold Draft.readLines
    rcases step_cases d hline with
      ⟨next, slot?, text, hstep, ⟨hcurrent, htext⟩, hgives⟩ | ⟨fault, hstep, hspan, hkind⟩
    · rw [hstep]
      rcases ih next with ⟨hnone, -, hclosed, hrest⟩ | ⟨fault, hfault, hkind⟩
      · refine .inl ⟨hnone, hgives.begun_head,
          List.forall_mem_cons.2 ⟨hgives.keyClosed, hclosed⟩, ?_⟩
        intro names slot hnames
        rw [hgives.accumulated hnames, hrest names slot hnames, htext, hcurrent,
          String.toList_append, List.append_assoc]
      · refine .inr ⟨fault, hfault, ?_⟩
        rcases hkind with ⟨-, hnone, -⟩ | ⟨hkind, -, hfirst⟩
        · rw [hcurrent] at hnone
          cases hnone
        · exact .inr ⟨hkind, hgives.begun_head, .cons hgives.keyClosed hfirst⟩
    · rw [hstep]
      refine .inr ⟨fault, rfl, ?_⟩
      rw [hspan]
      rcases hkind with ⟨hkind, hnone, hindented⟩ | ⟨hkind, hindented, hclosed⟩
      · exact .inl ⟨hkind, hnone, source.1, sources, rfl, hindented⟩
      · refine .inr ⟨hkind, ?_, .head hclosed⟩
        rintro - _ ⟨⟩
        exact hindented

end

/-! ## Finishing the draft -/

section

variable (d : Draft) (atEnd : Span)

theorem format_cases :
    let text := (d.text .format).toList
    (∃ format, d.format atEnd = .ok format ∧ FormatKnown text) ∨
      ∃ fault, d.format atEnd = .error fault ∧
        (fault.kind = .missingFormat ∧ trimChars text = [] ∨
          fault.kind = .unsupportedFormat ∧ trimChars text ≠ [] ∧ ¬ FormatKnown text) := by
  intro text
  have hname (name : String) : trim (d.text .format) = name ↔ trimChars text = name.toList := by
    rw [← String.toList_inj, toList_trim]
  unfold Draft.format Format.parse?
  by_cases hempty : trim (d.text .format) = ""
  · simp only [if_pos hempty]
    exact .inr ⟨_, rfl, .inl ⟨rfl, (hname "").1 hempty⟩⟩
  · simp only [if_neg hempty]
    by_cases hxml : trim (d.text .format) = "xml"
    · simp only [if_pos hxml]
      exact .inl ⟨_, rfl, .inl ((hname "xml").1 hxml)⟩
    · simp only [if_neg hxml]
      by_cases hjson : trim (d.text .format) = "json"
      · simp only [if_pos hjson]
        exact .inl ⟨_, rfl, .inr ((hname "json").1 hjson)⟩
      · simp only [if_neg hjson]
        refine .inr ⟨_, rfl, .inr ⟨rfl, mt (hname "").2 hempty, ?_⟩⟩
        rintro (h | h)
        · exact hxml ((hname "xml").2 h)
        · exact hjson ((hname "json").2 h)

/-- Trimming the path and its segments makes no segment blank, and saves none from it. -/
theorem contains_empty_iff (path : String) :
    ((pieces '/' (trim path)).map trim).contains "" = true ↔
      ∃ segment ∈ path.toList.splitOn '/', segment.all isBlank = true := by
  have hmap := map_all_splitOn_trimChars path.toList (show isBlank '/' = false from rfl)
  have hmem : true ∈ ((trimChars path.toList).splitOn '/').map (·.all isBlank) ↔
      true ∈ (path.toList.splitOn '/').map (·.all isBlank) := by rw [hmap]
  simp only [List.mem_map] at hmem
  rw [← hmem, List.contains_iff_mem, pieces, List.map_map, List.mem_map, toList_trim]
  refine exists_congr fun segment => and_congr_right fun _ => ?_
  rw [Function.comp_apply, trim_eq_empty_iff, isBlankText, String.toList_ofList]

theorem entriesPath_cases :
    let text := (d.text .entries).toList
    (∃ path, d.entriesPath atEnd = .ok path ∧ text.all isBlank = false ∧
        ∀ segment ∈ text.splitOn '/', segment.all isBlank = false) ∨
      ∃ fault, d.entriesPath atEnd = .error fault ∧
        (fault.kind = .missingEntries ∧ text.all isBlank = true ∨
          fault.kind = .emptyPathSegment ∧ text.all isBlank = false ∧
            ∃ segment ∈ text.splitOn '/', segment.all isBlank = true) := by
  intro text
  unfold Draft.entriesPath
  by_cases hempty : trim (d.text .entries) = ""
  · simp only [if_pos hempty]
    exact .inr ⟨_, rfl, .inl ⟨rfl, trim_eq_empty_iff.1 hempty⟩⟩
  · have hblank : text.all isBlank = false := Bool.eq_false_iff.2 (mt trim_eq_empty_iff.2 hempty)
    have hsegments := contains_empty_iff (d.text .entries)
    simp only [if_neg hempty]
    by_cases hcontains : ((pieces '/' (trim (d.text .entries))).map trim).contains "" = true
    · simp only [if_pos hcontains]
      exact .inr ⟨_, rfl, .inr ⟨rfl, hblank, hsegments.1 hcontains⟩⟩
    · simp only [if_neg hcontains]
      refine .inl ⟨_, rfl, hblank, fun segment hmem => Bool.eq_false_iff.2 fun hsegment => ?_⟩
      exact hcontains (hsegments.2 ⟨segment, hmem, hsegment⟩)

theorem finish_cases :
    let format := (d.text .format).toList
    let entries := (d.text .entries).toList
    (∃ spec, d.finish atEnd = .ok spec ∧ FormatKnown format ∧ entries.all isBlank = false ∧
        ∀ segment ∈ entries.splitOn '/', segment.all isBlank = false) ∨
      ∃ fault, d.finish atEnd = .error fault ∧
        (fault.kind = .missingFormat ∧ trimChars format = [] ∨
          fault.kind = .unsupportedFormat ∧ trimChars format ≠ [] ∧ ¬ FormatKnown format ∨
          fault.kind = .missingEntries ∧ FormatKnown format ∧ entries.all isBlank = true ∨
          fault.kind = .emptyPathSegment ∧ FormatKnown format ∧ entries.all isBlank = false ∧
            ∃ segment ∈ entries.splitOn '/', segment.all isBlank = true) := by
  intro format entries
  unfold Draft.finish
  rcases format_cases d atEnd with ⟨known, hf, hformat⟩ | ⟨fault, hf, hformat⟩
  · rw [hf]
    rcases entriesPath_cases d atEnd with ⟨path, he, hentries⟩ | ⟨fault, he, hentries⟩
    · rw [he]
      exact .inl ⟨_, rfl, hformat, hentries⟩
    · rw [he]
      refine .inr ⟨fault, rfl, ?_⟩
      rcases hentries with ⟨hkind, h⟩ | ⟨hkind, h⟩
      · exact .inr (.inr (.inl ⟨hkind, hformat, h⟩))
      · exact .inr (.inr (.inr ⟨hkind, hformat, h⟩))
  · rw [hf]
    refine .inr ⟨fault, rfl, ?_⟩
    rcases hformat with h | h
    · exact .inl h
    · exact .inr (.inl h)

end

/-- A word names its slot. -/
theorem names_word {slot : Slot} {word : String} (h : slot.word? = some word) :
    Names (· == word.toList) slot := by
  intro key keySpan slot? hkey
  rw [Slot.ofKey?_ok_iff_of_word? h hkey, beq_iff_eq, ← String.toList_inj, String.toList_ofList]

/-! ## Loading -/

theorem load_of_readAll_error {source : String} {fault : Fault}
    (h : Line.readAll source = .error fault) : Specification.load source = .error fault := by
  simp only [Specification.load, Specification.read, h]

theorem load_of_readAll_ok {source : String} {lines : List Line}
    (h : Line.readAll source = .ok lines) :
    Specification.load source =
      match (Draft.empty.readLines lines).2 with
      | some fault => .error fault
      | none =>
        (Draft.empty.readLines lines).1.finish (Span.ofEnd (physicalLines source).length) := by
  simp only [Specification.load, Specification.read, h]
  cases (Draft.empty.readLines lines).2 with
  | some fault => rfl
  | none =>
    cases (Draft.empty.readLines lines).1.finish (Span.ofEnd (physicalLines source).length) <;> rfl

theorem load_cases (source : String) :
    (∃ spec, Specification.load source = .ok spec ∧ Accepted source) ∨
      ∃ fault, Specification.load source = .error fault ∧
        Refused source fault.span.start.line fault.kind := by
  rcases readFrom_cases 0 0 (source.toList.splitOn '\n') with
    ⟨lines, hlines, hreads⟩ | ⟨fault, hfault, hkind, hfirst⟩
  · have hseparated := separated_of_reads hreads
    rw [load_of_readAll_ok hlines]
    rcases readLines_cases Draft.empty hreads with
      ⟨hnone, hbegun, hclosed, htext⟩ | ⟨fault, hfault, hkind⟩
    · have hwell : WellFormed (significant source) := ⟨hseparated, hbegun rfl, hclosed⟩
      have hformat : _ = given "format" source := htext _ .format (names_word rfl)
      have hentries : _ = given "entries" source := htext _ .entries (names_word rfl)
      have hfinish := finish_cases (Draft.empty.readLines lines).1
        (Span.ofEnd (physicalLines source).length)
      rw [hformat, hentries] at hfinish
      rw [hnone]
      rcases hfinish with ⟨spec, hresult, hspec⟩ | ⟨fault, hresult, hfault⟩
      · exact .inl ⟨spec, hresult, hwell, hspec.1, hspec.2.1, hspec.2.2⟩
      · refine .inr ⟨fault, hresult, ?_⟩
        rcases hfault with ⟨hkind, h⟩ | ⟨hkind, h⟩ | ⟨hkind, h⟩ | ⟨hkind, h⟩ <;>
          (rw [hkind]; exact ⟨hwell, h⟩)
    · rw [hfault]
      refine .inr ⟨fault, rfl, ?_⟩
      rcases hkind with ⟨hkind, -, hfirst⟩ | ⟨hkind, hbegun, hfirst⟩
      · rw [hkind]
        exact ⟨hseparated, hfirst⟩
      · rw [hkind]
        exact ⟨hseparated, hbegun rfl, hfirst⟩
  · refine .inr ⟨fault, load_of_readAll_error hfault, ?_⟩
    rw [hkind]
    exact hfirst

/-- **The loader takes what the grammar accepts.** Any other source is refused for the first of the
conditions that it breaks, in their fixed order. -/
theorem load_ok_iff_accepted (source : String) :
    ((∃ spec, Specification.load source = .ok spec) ↔ Accepted source) ∧
      ∀ fault, Specification.load source = .error fault →
        Refused source fault.span.start.line fault.kind := by
  rcases load_cases source with ⟨spec, hload, haccepted⟩ | ⟨fault, hload, hrefused⟩
  · rw [hload]
    exact ⟨iff_of_true ⟨spec, rfl⟩ haccepted, nofun⟩
  · rw [hload]
    refine ⟨iff_of_false (fun ⟨spec, h⟩ => nomatch h) hrefused.not_accepted, ?_⟩
    rintro _ ⟨⟩
    exact hrefused

/-- The separator of the last line is missed, not the key of the first one or the bracket of the
second. -/
example : (match Specification.load " x\nfield[: a\nformat xml" with
    | .ok _ => false
    | .error fault => fault.kind == .missingSeparator && fault.span.start.line == 2) = true := by
  decide +kernel

end Extractor.Grammar
