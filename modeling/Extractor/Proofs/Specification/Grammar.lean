import Extractor.Proofs.Text.Search
import Extractor.Specification.Line
/-!
# The grammar of specifications

Which texts are specifications (`Accepted`), and for which of its defects any other text is refused
(`Refused`). Defects of lines come before missing sections, and a line without a separator comes
before everything else, wherever it stands.
-/

namespace Extractor.Grammar

open Text

/-- Neither blank nor a comment. -/
def Significant (text : List Char) : Prop := text ≠ [] ∧ text.head? ≠ some '#'

instance (text : List Char) : Decidable (Significant text) :=
  inferInstanceAs (Decidable (text ≠ [] ∧ text.head? ≠ some '#'))

/-- The lines that mean something, each without the white space at its end, and their numbers. The
first line has the given number. -/
def significantFrom (number : Nat) (raws : List (List Char)) : List (List Char × Nat) :=
  ((raws.map dropBlankEnd).zipIdx number).filter fun line => Significant line.1

def significant (source : String) : List (List Char × Nat) :=
  significantFrom 0 (source.toList.splitOn '\n')

def Indented (text : List Char) : Prop := text.head?.any isBlank = true

instance (text : List Char) : Decidable (Indented text) :=
  inferInstanceAs (Decidable (text.head?.any isBlank = true))

/-- Key and value stand around the first colon with a space behind it; when the line has none, or
starts with it, the key stands before a colon at the end. -/
inductive Splits : List Char → List Char → List Char → Prop
  | inside {text key value : List Char} (hkey : key ≠ [])
      (hfirst : FirstAt [':', ' '] text key value) : Splits text key value
  | atEnd {key : List Char} (hkey : key ≠ [])
      (hnone : ∀ before after, FirstAt [':', ' '] (key ++ [':']) before after → before = []) :
      Splits (key ++ [':']) key []

/-- The line is indented, or has a separator that it does not start with. -/
def Separated (text : List Char) : Prop :=
  Indented text ∨ (∃ key value, key ≠ [] ∧ FirstAt [':', ' '] text key value) ∨
    ∃ key, key ≠ [] ∧ text = key ++ [':']

/-- When the key has one of the openings, a name and a closing bracket make up the rest of it. -/
def Closed (key : List Char) : Prop :=
  ∀ opening ∈ ["field[", "value[", "valueItemType["], ∀ rest, key = opening.toList ++ rest →
    ∃ name, rest = name ++ [']'] ∧ name.all isBlank = false

def KeyClosed (text : List Char) : Prop :=
  Indented text ∨ ∀ key value, Splits text key value → Closed (trimChars key)

/-- What the lines add up to for the keys of a sort: the values given to these keys, and every
indented line that follows such a value. `on` tells whether the line before belongs to them. -/
def accumulated (names : List Char → Bool) (on : Bool) : List (List Char × Nat) → List Char
  | [] => []
  | (text, _) :: rest =>
    if Indented text then
      (if on then '\n' :: trimChars text else []) ++ accumulated names on rest
    else
      match Line.separate? text with
      | some (key, value) =>
        (if names (trimChars key) then trimChars value else []) ++
          accumulated names (names (trimChars key)) rest
      | none => accumulated names false rest

/-- All that a source gives for one word. -/
def given (word : String) (source : String) : List Char :=
  accumulated (· == word.toList) false (significant source)

/-- Lines whose keys can be read. -/
structure WellFormed (lines : List (List Char × Nat)) : Prop where
  separated : ∀ line ∈ lines, Separated line.1
  begun : ∀ line ∈ lines.head?, ¬ Indented line.1
  closed : ∀ line ∈ lines, KeyClosed line.1

def FormatKnown (text : List Char) : Prop :=
  trimChars text = "xml".toList ∨ trimChars text = "json".toList

structure Accepted (source : String) : Prop where
  lines : WellFormed (significant source)
  format : FormatKnown (given "format" source)
  entries : (given "entries" source).all isBlank = false
  segments : ∀ segment ∈ (given "entries" source).splitOn '/', segment.all isBlank = false

/-- The first line that fails `P` has this number. -/
def FirstFailing (P : List Char → Prop) (lines : List (List Char × Nat)) (number : Nat) : Prop :=
  ∃ before text after, lines = before ++ (text, number) :: after ∧
    (∀ line ∈ before, P line.1) ∧ ¬ P text

/-- The conditions of which a source is the first to break one, by the kind of its fault. A fault
of a line stands on the line with this number. -/
def Refused (source : String) (number : Nat) : Fault.Kind → Prop
  | .missingSeparator => FirstFailing Separated (significant source) number
  | .orphanContinuation =>
    (∀ line ∈ significant source, Separated line.1) ∧
      ∃ text after, significant source = (text, number) :: after ∧ Indented text
  | .malformedKey =>
    (∀ line ∈ significant source, Separated line.1) ∧
      (∀ line ∈ (significant source).head?, ¬ Indented line.1) ∧
      FirstFailing KeyClosed (significant source) number
  | .missingFormat => WellFormed (significant source) ∧ trimChars (given "format" source) = []
  | .unsupportedFormat =>
    WellFormed (significant source) ∧ trimChars (given "format" source) ≠ [] ∧
      ¬ FormatKnown (given "format" source)
  | .missingEntries =>
    WellFormed (significant source) ∧ FormatKnown (given "format" source) ∧
      (given "entries" source).all isBlank = true
  | .emptyPathSegment =>
    WellFormed (significant source) ∧ FormatKnown (given "format" source) ∧
      (given "entries" source).all isBlank = false ∧
      ∃ segment ∈ (given "entries" source).splitOn '/', segment.all isBlank = true

section

variable {n : Nat} {P : List Char → Prop} {line : List Char × Nat} {lines : List (List Char × Nat)}

theorem FirstFailing.not_forall (h : FirstFailing P lines n) : ¬ ∀ line ∈ lines, P line.1 := by
  obtain ⟨before, text, after, rfl, -, htext⟩ := h
  exact fun hall => htext (hall (text, n) (List.mem_append_right _ List.mem_cons_self))

theorem FirstFailing.head (h : ¬ P line.1) : FirstFailing P (line :: lines) line.2 :=
  ⟨[], line.1, lines, rfl, fun _ hmem => absurd hmem List.not_mem_nil, h⟩

theorem FirstFailing.cons (h : P line.1) (hlines : FirstFailing P lines n) :
    FirstFailing P (line :: lines) n := by
  obtain ⟨before, text, after, rfl, hbefore, htext⟩ := hlines
  exact ⟨line :: before, text, after, rfl, List.forall_mem_cons.2 ⟨h, hbefore⟩, htext⟩

end

/-- No source is both accepted and refused. -/
theorem Refused.not_accepted {source : String} {number : Nat} {kind : Fault.Kind}
    (h : Refused source number kind) : ¬ Accepted source := by
  rintro ⟨hlines, hformat, hentries, hsegments⟩
  cases kind with
  | missingSeparator => exact h.not_forall hlines.separated
  | orphanContinuation =>
    obtain ⟨-, text, after, hsource, hindented⟩ := h
    exact hlines.begun (text, number) (by rw [hsource]; rfl) hindented
  | malformedKey => exact h.2.2.not_forall hlines.closed
  | missingFormat =>
    rcases hformat with hxml | hjson
    · exact nomatch h.2.symm.trans hxml
    · exact nomatch h.2.symm.trans hjson
  | unsupportedFormat => exact h.2.2 hformat
  | missingEntries => exact Bool.false_ne_true (hentries.symm.trans h.2.2)
  | emptyPathSegment =>
    obtain ⟨-, -, -, segment, hmem, hblank⟩ := h
    exact Bool.false_ne_true ((hsegments segment hmem).symm.trans hblank)

/-! ## Separating a line -/

section

variable {text key value : List Char}

theorem separate?_eq_some_iff : Line.separate? text = some (key, value) ↔ Splits text key value := by
  unfold Line.separate?
  constructor
  · intro h
    split at h
    · next c front behind hbreak =>
      cases h
      exact .inside (List.cons_ne_nil _ _) (breakAt?_eq_some_iff.1 hbreak)
    · next hbreak =>
      split at h
      · next c front hsuffix =>
        cases h
        obtain rfl := isSuffixOf?_eq_some_iff.1 hsuffix
        refine .atEnd (List.cons_ne_nil _ _) fun before after hfirst => ?_
        cases before with
        | nil => rfl
        | cons d before => exact absurd (breakAt?_eq_some_iff.2 hfirst) (hbreak d before after)
      · exact nomatch h
  · intro h
    cases h with
    | inside hkey hfirst =>
      obtain ⟨c, front, rfl⟩ := List.exists_cons_of_ne_nil hkey
      rw [breakAt?_eq_some_iff.2 hfirst]
    | atEnd hkey hnone =>
      obtain ⟨c, front, rfl⟩ := List.exists_cons_of_ne_nil hkey
      rw [isSuffixOf?_eq_some_iff.2 rfl]
      split
      · next hbreak => exact nomatch hnone _ _ (breakAt?_eq_some_iff.1 hbreak)
      · rfl

/-- A separator that a line does not start with gives it a key and a value. -/
theorem separated_iff :
    Separated text ↔ Indented text ∨ ∃ key value, Line.separate? text = some (key, value) := by
  simp only [separate?_eq_some_iff, Separated]
  refine or_congr_right ⟨?_, ?_⟩
  · rintro (⟨key, value, hkey, hfirst⟩ | ⟨key, hkey, rfl⟩)
    · exact ⟨key, value, .inside hkey hfirst⟩
    · by_cases h : ∃ before after, before ≠ [] ∧ FirstAt [':', ' '] (key ++ [':']) before after
      · obtain ⟨before, after, hbefore, hfirst⟩ := h
        exact ⟨before, after, .inside hbefore hfirst⟩
      · push Not at h
        exact ⟨key, [], .atEnd hkey fun before after hfirst =>
          by_contra fun hbefore => h before after hbefore hfirst⟩
  · rintro ⟨key, value, h⟩
    cases h with
    | inside hkey hfirst => exact .inl ⟨key, value, hkey, hfirst⟩
    | atEnd hkey hnone => exact .inr ⟨_, hkey, rfl⟩

theorem keyClosed_iff (hindented : ¬ Indented text)
    (hsplit : Line.separate? text = some (key, value)) :
    KeyClosed text ↔ Closed (trimChars key) := by
  unfold KeyClosed
  constructor
  · rintro (h | h)
    · exact absurd h hindented
    · exact h key value (separate?_eq_some_iff.1 hsplit)
  · intro h
    refine .inr fun key' value' hsplit' => ?_
    rw [← separate?_eq_some_iff, hsplit] at hsplit'
    cases hsplit'
    exact h

end

/-! ## The significant lines -/

section

variable {number : Nat} {raw : List Char} {raws : List (List Char)} {line : List Char × Nat}
  {lines : List (List Char × Nat)}

theorem significantFrom_cons_of_significant (h : Significant (dropBlankEnd raw)) :
    significantFrom number (raw :: raws) =
      (dropBlankEnd raw, number) :: significantFrom (number + 1) raws := by
  simp [significantFrom, h]

theorem significantFrom_cons_of_not_significant (h : ¬ Significant (dropBlankEnd raw)) :
    significantFrom number (raw :: raws) = significantFrom (number + 1) raws := by
  simp [significantFrom, h]

theorem accumulated_cons_of_indented {names : List Char → Bool} {on : Bool}
    (h : Indented line.1) :
    accumulated names on (line :: lines) =
      (if on then '\n' :: trimChars line.1 else []) ++ accumulated names on lines :=
  if_pos h

theorem accumulated_cons_of_separate {names : List Char → Bool} {on : Bool} {key value : List Char}
    (h : ¬ Indented line.1) (hsplit : Line.separate? line.1 = some (key, value)) :
    accumulated names on (line :: lines) =
      (if names (trimChars key) then trimChars value else []) ++
        accumulated names (names (trimChars key)) lines := by
  rw [accumulated, if_neg h, hsplit]

end

end Extractor.Grammar
