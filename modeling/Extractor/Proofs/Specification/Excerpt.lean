import Extractor.Fault.Render
import Extractor.Proofs.Specification.FirstLines
import Extractor.Proofs.Specification.Validity
import Extractor.Proofs.Text.PhysicalLines
/-!
# Faults and their excerpts

A fault that is found in a line points at the text that is wrong, and is printed with this line and
one caret for each character of the text (`render_offence`). Only what is missing from the whole
source has no excerpt: its span lies past the last line.
-/

namespace Extractor

open Text

namespace Fault

/-- The fault as it is printed around an excerpt. -/
def framed (filename : String) (f : Fault) (excerpt : String) : String :=
  "\n file: " ++ filename ++ ":" ++ toString (f.span.start.line + 1) ++ ":" ++
      toString (f.span.start.column + 1) ++ "\nerror: " ++ f.message ++ "\n" ++ excerpt ++
    (match f.help with
      | some help => "\n" ++ helpLines .plain help
      | none => "") ++
    "\n"

/-- A line behind its number, and carets under its first characters. -/
def underlined (number : Nat) (line : String) (carets : Nat) : String :=
  let width := max 2 (toString number).length
  spaces width ++ " |\n" ++ alignRight width (toString number) ++ " | " ++ line ++ "\n" ++
    spaces width ++ " | " ++ String.ofList (List.replicate carets '^') ++ "\n"

theorem render_plain (f : Fault) (source filename : String) :
    f.render .plain source filename =
      f.framed filename (match (physicalLines source)[f.span.start.line]? with
        | some line => excerpt .plain f.span line
        | none => "") := by
  have hfile : "\n file: " = "\n " ++ ("file:" ++ " ") := rfl
  have herror : "\nerror: " = "\n" ++ ("error:" ++ " ") := rfl
  dsimp only [render, framed]
  rw [hfile, herror]
  cases (physicalLines source)[f.span.start.line]? <;> cases f.help <;>
    simp only [Palette.plain, String.append_assoc, String.empty_append]

theorem excerpt_plain {span : Span} (line : String) (h : span.start.column = 0) :
    excerpt .plain span line = underlined (span.start.line + 1) line (caretCount span line) := by
  have hmargin (n : Nat) : alignRight n "" = spaces n := String.append_empty
  have hbreak : " |\n" = " |" ++ "\n" := rfl
  have hbar : " | " = " |" ++ " " := rfl
  have hnone : spaces 0 = "" := rfl
  unfold excerpt underlined
  rw [hbreak, hbar]
  simp only [Palette.plain, h, hnone, hmargin, String.append_assoc, String.empty_append]

end Fault

/-! ## Faults of a draft -/

namespace Draft

variable {d : Draft} {line : Line} {lines : List Line} {slot : Slot} {atEnd : Span} {fault : Fault}

/-- A fault of a line lies in its text, or in its key. -/
theorem fault_of_step (h : d.step line = .error fault) :
    fault.kind = .orphanContinuation ∧ (∃ text, line = .continuation text fault.span) ∨
      fault.kind = .malformedKey ∧ ∃ key value span, line = .entry key value fault.span span := by
  cases line with
  | continuation text span =>
    simp only [step] at h
    split at h <;> cases h
    exact .inl ⟨rfl, text, rfl⟩
  | entry key value keySpan span =>
    simp only [step] at h
    cases hkey : Slot.ofKey? key keySpan with
    | error fault' =>
      rw [hkey] at h
      cases h
      obtain ⟨-, hkind, rfl⟩ := Slot.ofKey?_error hkey
      exact .inr ⟨hkind, key, value, span, rfl⟩
    | ok slot? =>
      rw [hkey] at h
      cases slot? <;> cases h

theorem exists_step_of_fault (h : (d.readLines lines).2 = some fault) :
    ∃ line ∈ lines, ∃ before : Draft, before.step line = .error fault := by
  induction lines generalizing d with
  | nil => cases h
  | cons line lines ih =>
    unfold readLines at h
    cases hstep : d.step line with
    | error fault' =>
      rw [hstep] at h
      cases h
      exact ⟨line, List.mem_cons_self, d, hstep⟩
    | ok next =>
      rw [hstep] at h
      obtain ⟨line, hline, hfault⟩ := ih h
      exact ⟨line, List.mem_cons_of_mem _ hline, hfault⟩

/-- What has a text has a section, and so a place of its own. -/
theorem span?_of_text (h : d.text slot ≠ "") : d.span? slot = some (d.span slot atEnd) := by
  unfold text at h
  unfold span? span
  cases hfind : d.find? slot with
  | none =>
    rw [hfind] at h
    exact absurd rfl h
  | some found => rfl

/-- A fault of the finished draft lies past the end, or where the section starts that is wrong. -/
theorem fault_of_finish (h : d.finish atEnd = .error fault) :
    (fault.kind = .missingFormat ∨ fault.kind = .missingEntries) ∧ fault.span = atEnd ∨
      fault.kind = .unsupportedFormat ∧ d.span? .format = some fault.span ∨
      fault.kind = .emptyPathSegment ∧ d.span? .entries = some fault.span := by
  have htext (slot : Slot) (hne : trim (d.text slot) ≠ "") : d.text slot ≠ "" :=
    fun hempty => hne (by rw [hempty]; rfl)
  unfold finish at h
  cases hformat : d.format atEnd with
  | error fault' =>
    rw [hformat] at h
    cases h
    unfold format at hformat
    dsimp only at hformat
    split_ifs at hformat with hempty
    · cases hformat
      exact .inl ⟨.inl rfl, rfl⟩
    · split at hformat <;> cases hformat
      exact .inr (.inl ⟨rfl, span?_of_text (htext _ hempty)⟩)
  | ok format =>
    rw [hformat] at h
    cases hpath : d.entriesPath atEnd with
    | ok path =>
      rw [hpath] at h
      cases h
    | error fault' =>
      rw [hpath] at h
      cases h
      unfold entriesPath at hpath
      dsimp only at hpath
      split_ifs at hpath with hempty
      · cases hpath
        exact .inl ⟨.inr rfl, rfl⟩
      · cases hpath
        exact .inr (.inr ⟨rfl, span?_of_text (htext _ hempty)⟩)

end Draft

namespace Grammar

/-- The text in which a fault of this kind is found. A line of this number starts with it. -/
inductive Offends (source : String) : Fault.Kind → Nat → List Char → Prop
  | missingSeparator {text : List Char} {number : Nat}
      (hfirst : FirstWith (¬ Separated ·) (significant source) (text, number)) :
      Offends source .missingSeparator number text
  | orphanContinuation {text : List Char} {number : Nat} {after : List (List Char × Nat)}
      (hhead : significant source = (text, number) :: after) (hindented : Indented text) :
      Offends source .orphanContinuation number text
  | malformedKey {text key value : List Char} {number : Nat}
      (hfirst : FirstWith (¬ KeyClosed ·) (significant source) (text, number))
      (hsplit : Splits text key value) : Offends source .malformedKey number key
  | unsupportedFormat {text : List Char} {number : Nat}
      (hfirst : FirstWith (HasKey "format") (significant source) (text, number)) :
      Offends source .unsupportedFormat number text
  | emptyPathSegment {text : List Char} {number : Nat}
      (hfirst : FirstWith (HasKey "entries") (significant source) (text, number)) :
      Offends source .emptyPathSegment number text

section

variable {source word : String} {place : List Char × Nat} {line : Line} {lines : List Line}
  {slot : Slot} {span : Span} {kind : Fault.Kind} {fault : Fault} {number : Nat} {text : List Char}

theorem Placed.starts (h : Placed source place line) : line.span.Starts source place.2 place.1 := by
  cases h <;> assumption

/-- The text stands at the start of a significant line. -/
theorem Offends.exists_isPrefix (h : Offends source kind number text) :
    text ≠ [] ∧ ∃ whole, (whole, number) ∈ significant source ∧ text <+: whole := by
  have hwhole {text : List Char} (hmem : (text, number) ∈ significant source) :
      text ≠ [] ∧ ∃ whole, (whole, number) ∈ significant source ∧ text <+: whole :=
    ⟨(mem_significant_iff.1 hmem).2.1, text, hmem, List.prefix_rfl⟩
  cases h with
  | missingSeparator hfirst => exact hwhole hfirst.mem
  | orphanContinuation hhead _ => exact hwhole (hhead ▸ List.mem_cons_self)
  | malformedKey hfirst hsplit =>
    exact ⟨by cases hsplit <;> assumption, _, hfirst.mem, hsplit.isPrefix⟩
  | unsupportedFormat hfirst => exact hwhole hfirst.mem
  | emptyPathSegment hfirst => exact hwhole hfirst.mem

theorem Offends.not_missing (h : Offends source kind number text) :
    ¬ (kind = .missingFormat ∨ kind = .missingEntries) := by
  cases h <;> decide

/-! ## Where a source is refused -/

theorem offends_of_readLines (hlines : Line.readAll source = .ok lines)
    (h : (Draft.empty.readLines lines).2 = some fault) :
    ∃ number text, Offends source fault.kind number text ∧
      fault.span.Starts source number text := by
  have hload : Specification.load source = .error fault := by rw [load_of_readAll_ok hlines, h]
  rcases load_cases source with ⟨spec, hspec, -⟩ | ⟨fault', hfault', hrefused⟩
  · cases hload.symm.trans hspec
  cases hload.symm.trans hfault'
  obtain ⟨line, hline, d, hstep⟩ := Draft.exists_step_of_fault h
  obtain ⟨⟨text, number⟩, hmem, hplaced⟩ := exists_placed hlines hline
  -- The fault is refused by its number, which tells the line that it was found in.
  rcases Draft.fault_of_step hstep with ⟨hkind, text', rfl⟩ | ⟨hkind, key, value, span, rfl⟩
  · rw [hkind] at hrefused ⊢
    obtain ⟨-, first, after, hhead, hindented⟩ := hrefused
    cases hplaced with
    | continuation hspan _ =>
      rw [hspan.line] at hhead
      obtain rfl := eq_of_mem_significant hmem (hhead ▸ List.mem_cons_self)
      exact ⟨number, text, .orphanContinuation hhead hindented, hspan⟩
  · rw [hkind] at hrefused ⊢
    cases hplaced with
    | entry _ hkey _ hsplit =>
      have hfirst := hrefused.2.2
      rw [hkey.line] at hfirst
      exact ⟨number, _, .malformedKey (firstWith_of_firstFailing hfirst hmem) hsplit, hkey⟩

/-- A section starts where the first line with its word stands. -/
theorem firstWith_of_span? (hlines : Line.readAll source = .ok lines)
    (hnone : (Draft.empty.readLines lines).2 = none) (hword : slot.word? = some word)
    (h : (Draft.empty.readLines lines).1.span? slot = some span) :
    ∃ number text, FirstWith (HasKey word) (significant source) (text, number) ∧
      span.Starts source number text := by
  rw [Draft.enters_empty.span?_readLines hnone, show Draft.empty.span? slot = none from rfl,
    Option.none_or, Option.map_eq_some_iff] at h
  obtain ⟨line, hfind, rfl⟩ := h
  obtain ⟨⟨text, number⟩, hfirst, hplaced⟩ :=
    firstWith_of_find? (forall₂_placed hlines) hword hfind
  exact ⟨number, text, hfirst, hplaced.starts⟩

/-- A source is refused for a text of its own or for what it lacks. -/
theorem load_error_cases (h : Specification.load source = .error fault) :
    (fault.kind = .missingFormat ∨ fault.kind = .missingEntries) ∧
        fault.span = .ofEnd (physicalLines source).length ∨
      ∃ number text, Offends source fault.kind number text ∧
        fault.span.Starts source number text := by
  cases hlines : Line.readAll source with
  | error fault' =>
    cases (load_of_readAll_error hlines).symm.trans h
    obtain ⟨hkind, text, number, hfirst, hspan⟩ := first_of_readAll_error hlines
    rw [hkind]
    exact .inr ⟨number, text, .missingSeparator hfirst, hspan⟩
  | ok lines =>
    cases hfault : (Draft.empty.readLines lines).2 with
    | some fault' =>
      rw [load_of_readAll_ok hlines, hfault] at h
      cases h
      exact .inr (offends_of_readLines hlines hfault)
    | none =>
      rw [load_of_readAll_ok hlines, hfault] at h
      rcases Draft.fault_of_finish h with hend | ⟨hkind, hspan⟩ | ⟨hkind, hspan⟩
      · exact .inl hend
      · obtain ⟨number, text, hfirst, hstarts⟩ := firstWith_of_span? hlines hfault rfl hspan
        rw [hkind]
        exact .inr ⟨number, text, .unsupportedFormat hfirst, hstarts⟩
      · obtain ⟨number, text, hfirst, hstarts⟩ := firstWith_of_span? hlines hfault rfl hspan
        rw [hkind]
        exact .inr ⟨number, text, .emptyPathSegment hfirst, hstarts⟩

/-! ## Excerpts -/

/-- A caret for each character: the text is not empty and has no line breaks. -/
theorem caretCount_of_starts (h : span.Starts source number text) (hbreak : '\n' ∉ text)
    (hne : text ≠ []) (line : String) : Fault.caretCount span line = text.length := by
  obtain ⟨⟨before, after, -, rfl⟩, -, -⟩ := h
  have hlength : 0 < text.length := List.length_pos_iff.2 hne
  rw [Fault.caretCount, Position.behind_append before hbreak, if_pos rfl]
  exact (congrArg (max 1) (Nat.add_sub_cancel_left _ _)).trans (Nat.max_eq_right hlength)

theorem Offends.exists_lineSeen? (h : Offends source kind number text) :
    text ≠ [] ∧ '\n' ∉ text ∧ ∃ line, lineSeen? source number = some line ∧ text <+: line ∧
      (physicalLines source)[number]? = some (String.ofList line) := by
  obtain ⟨hne, whole, hmem, htext⟩ := h.exists_isPrefix
  have hbreak : '\n' ∉ text := fun hbreak => not_mem_of_mem_significant hmem (htext.subset hbreak)
  rw [mem_significant_iff, List.getElem?_map, Option.map_eq_some_iff] at hmem
  obtain ⟨⟨row, hrow, rfl⟩, hsignificant⟩ := hmem
  obtain ⟨line, hseen, hprefix, hline⟩ := lineSeen?_of_row hrow hsignificant.1
  exact ⟨hne, hbreak, line, hseen, htext.trans hprefix, hline⟩

/-- **A fault is printed with the text that is wrong.** What is missing from the source has no
excerpt. Any other fault has its place in the source, the excerpt shows the line that is there, and
the carets stand under the characters of the text. -/
theorem render_offence (filename : String) (h : Specification.load source = .error fault) :
    if fault.kind = .missingFormat ∨ fault.kind = .missingEntries then
      fault.render .plain source filename = fault.framed filename ""
    else
      fault.span ≠ .ofEnd (physicalLines source).length ∧
        ∃ text line, Offends source fault.kind fault.span.start.line text ∧
          fault.span.Starts source fault.span.start.line text ∧
          lineSeen? source fault.span.start.line = some line ∧ text <+: line ∧
          fault.render .plain source filename = fault.framed filename
            (Fault.underlined (fault.span.start.line + 1) (String.ofList line) text.length) := by
  rcases load_error_cases h with ⟨hkind, hspan⟩ | ⟨number, text, hoffends, hstarts⟩
  · have hpast : (physicalLines source)[fault.span.start.line]? = none := by
      rw [hspan]
      exact List.getElem?_eq_none le_rfl
    rw [if_pos hkind, Fault.render_plain, hpast]
  · obtain ⟨hne, hbreak, line, hseen, hprefix, hline⟩ := hoffends.exists_lineSeen?
    have hnumber := hstarts.line
    rw [if_neg hoffends.not_missing]
    rw [← hnumber] at hoffends hstarts hseen hline
    refine ⟨fun hend => ?_, text, line, hoffends, hstarts, hseen, hprefix, ?_⟩
    · -- Past the end there is no line to be seen.
      rw [hend] at hline
      exact absurd (hline.symm.trans (List.getElem?_eq_none le_rfl)) (Option.some_ne_none _)
    · rw [Fault.render_plain, hline]
      dsimp only
      rw [Fault.excerpt_plain _ hstarts.column, caretCount_of_starts hstarts hbreak hne]

/-- The path is wrong in its second line; its key line is the one that is shown. -/
theorem render_offence_pathSegment :
    let source := "format: xml\r\nentries: é\r\n  / / b\r\nfield[x]: 1"
    ∃ fault, Specification.load source = .error fault ∧ fault.kind = .emptyPathSegment ∧
      Offends source .emptyPathSegment 1 "entries: é".toList ∧
      fault.render .plain source "x.in" =
        fault.framed "x.in" (Fault.underlined 2 "entries: é" 10) := by
  intro source
  have hload : Specification.load source = .error
      (.emptyPathSegment "é\n/ / b" ⟨⟨13, 1, 0⟩, ⟨24, 1, 10⟩⟩) := by
    decide +kernel
  have hrender := render_offence "x.in" hload
  rw [if_neg (by decide)] at hrender
  obtain ⟨-, text, line, hoffends, -, hseen, -, hprinted⟩ := hrender
  have hmem : ("entries: é".toList, 1) ∈ significant source := by decide +kernel
  have htext : text = "entries: é".toList := by
    cases hoffends with
    | emptyPathSegment hfirst => exact eq_of_mem_significant hfirst.mem hmem
  have hline : lineSeen? source 1 = some "entries: é".toList := by decide +kernel
  obtain rfl : line = "entries: é".toList := Option.some.inj (hseen.symm.trans hline)
  rw [htext] at hoffends hprinted
  exact ⟨_, hload, rfl, hoffends, hprinted⟩

/-- A carriage return at the end of a source has no break after it, and is shown. -/
theorem render_carriageReturn :
    ∃ fault, Specification.load "abc\r" = .error fault ∧ fault.kind = .missingSeparator ∧
      fault.span.start.line = 0 ∧
      fault.render .plain "abc\r" "<stdin>" =
        fault.framed "<stdin>" (Fault.underlined 1 "abc\r" 3) ∧
      fault.render .plain "abc\r" "<stdin>" ≠
        fault.framed "<stdin>" (Fault.underlined 1 "abc" 3) := by
  have hload : Specification.load "abc\r" = .error
      (.missingSeparator "abc" ⟨⟨0, 0, 0⟩, ⟨3, 0, 3⟩⟩) := by
    decide +kernel
  exact ⟨_, hload, rfl, rfl, by decide +kernel, by decide +kernel⟩

end

end Grammar

end Extractor
