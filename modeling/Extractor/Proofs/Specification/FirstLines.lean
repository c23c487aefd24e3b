import Extractor.Proofs.Specification.Places
/-!
# Where a section starts

A section keeps the span of the line that opens it, and this is the first line that names its slot
(`Enters.span?_readLines`), whatever is added to the section by later lines. For a slot with a word
it is the first line with this word as its key (`firstWith_of_find?`).
-/

namespace Extractor

open Text

namespace Draft

variable {d next : Draft} {line : Line} {lines : List Line} {given : List Slot} {slot : Slot}

/-- The span of the line that opened the section of the slot. -/
def span? (d : Draft) (slot : Slot) : Option Span := (d.find? slot).map Section.span

theorem span?_addText (d : Draft) (slot other : Slot) (text : String) (span : Span)
    (current : Option (Option Slot)) (warnings : List Warning) :
    Draft.span? ⟨addText slot text span d.sections, current, warnings⟩ other =
      (d.span? other).or (if slot = other then some span else none) := by
  unfold span? find?
  induction d.sections with
  | nil => by_cases h : slot = other <;> simp [addText, h]
  | cons s sections ih =>
    unfold addText
    by_cases hs : s.slot = slot
    · rw [if_pos hs]
      by_cases h : slot = other
      · simp [hs, h]
      · simp [hs, h]
    · rw [if_neg hs]
      by_cases h : s.slot = other
      · simp [h]
      · simpa [h] using ih

theorem exists_span?_of_mem (h : slot ∈ d.slots) : ∃ span, d.span? slot = some span := by
  obtain ⟨s, hs, hslot⟩ := List.mem_map.1 h
  have hsome : (d.find? slot).isSome = true :=
    List.find?_isSome.2 ⟨s, hs, decide_eq_true hslot⟩
  obtain ⟨found, hfound⟩ := Option.isSome_iff_exists.1 hsome
  exact ⟨found.span, by rw [span?, hfound]; rfl⟩

/-- Only a key line opens a section, and only if there is none. -/
theorem Enters.span?_step (hd : d.Enters given) (h : d.step line = .ok next) (slot : Slot) :
    next.span? slot =
      (d.span? slot).or (if line.slot? = some slot then some line.span else none) := by
  have hnone : (none : Option Slot) ≠ some slot := (Option.some_ne_none slot).symm
  cases takes_of_step h with
  | skipped hcurrent => rw [Line.slot?, if_neg hnone, Option.or_none]
  | @more text span other hcurrent =>
    rw [Line.slot?, if_neg hnone, Option.or_none, span?_addText]
    by_cases hslot : other = slot
    · -- The line goes on with a section that is there.
      have hmem : other ∈ d.slots := by
        rw [hd.slots, List.mem_eraseDups]
        exact hd.current other hcurrent
      obtain ⟨opened, hopened⟩ := exists_span?_of_mem hmem
      rw [← hslot, hopened, Option.some_or]
    · rw [if_neg hslot, Option.or_none]
  | named hkey =>
    rw [span?_addText, Line.slot?, hkey]
    simp only [Option.some.injEq]
    rfl
  | unknown hkey =>
    rw [Line.slot?, hkey, if_neg hnone, Option.or_none]
    rfl

/-- **A section keeps the place of the first line that names its slot.** -/
theorem Enters.span?_readLines (hd : d.Enters given) (h : (d.readLines lines).2 = none)
    (slot : Slot) : (d.readLines lines).1.span? slot =
      (d.span? slot).or ((lines.find? (·.slot? = some slot)).map Line.span) := by
  induction lines generalizing d given with
  | nil => exact (Option.or_none).symm
  | cons line lines ih =>
    unfold Draft.readLines at h ⊢
    cases hstep : d.step line with
    | error fault =>
      rw [hstep] at h
      cases h
    | ok next =>
      rw [hstep] at h
      rw [ih (hd.step hstep) h, hd.span?_step hstep, Option.or_assoc]
      by_cases hslot : line.slot? = some slot
      · rw [if_pos hslot, List.find?_cons_of_pos (by simpa using hslot), Option.some_or]
        rfl
      · rw [if_neg hslot, List.find?_cons_of_neg (by simpa using hslot), Option.none_or]

end Draft

namespace Grammar

/-- The line has this word as its key. -/
def HasKey (word : String) (text : List Char) : Prop :=
  ¬ Indented text ∧ ∃ key value, Splits text key value ∧ trimChars key = word.toList

section

variable {source word : String} {slot : Slot} {line : Line} {lines : List Line}
  {place : List Char × Nat} {places : List (List Char × Nat)}

theorem slot?_entry_eq_some_iff {key value : String} {keySpan span : Span}
    (hword : slot.word? = some word) :
    (Line.entry key value keySpan span).slot? = some slot ↔ key = word := by
  rw [Line.slot?]
  cases hkey : Slot.ofKey? key keySpan with
  | ok slot? => exact Slot.ofKey?_ok_iff_of_word? hword hkey
  | error fault =>
    refine iff_of_false (Option.some_ne_none slot).symm ?_
    rintro rfl
    rw [Slot.ofKey?, Slot.ofWord?_eq_some_iff.2 hword] at hkey
    cases hkey

theorem Placed.slot?_eq_some_iff (h : Placed source place line) (hword : slot.word? = some word) :
    line.slot? = some slot ↔ HasKey word place.1 := by
  cases h with
  | continuation _ hindented =>
    exact iff_of_false (Option.some_ne_none slot).symm fun hkey => hkey.1 hindented
  | @entry text key value number keySpan span _ _ hindented hsplit =>
    rw [slot?_entry_eq_some_iff hword, ← String.toList_inj, String.toList_ofList]
    constructor
    · exact fun hkey => ⟨hindented, key, value, hsplit, hkey⟩
    · rintro ⟨-, key', value', hsplit', hkey⟩
      rw [← separate?_eq_some_iff] at hsplit hsplit'
      cases hsplit.symm.trans hsplit'
      exact hkey

theorem FirstWith.head {P : List Char → Prop} (h : P place.1) : FirstWith P (place :: places) place :=
  ⟨[], places, rfl, List.forall_mem_nil _, h⟩

theorem FirstWith.cons {P : List Char → Prop} {first : List Char × Nat} (h : ¬ P first.1)
    (hfirst : FirstWith P places place) : FirstWith P (first :: places) place := by
  obtain ⟨before, after, rfl, hbefore, hplace⟩ := hfirst
  exact ⟨first :: before, after, rfl, List.forall_mem_cons.2 ⟨h, hbefore⟩, hplace⟩

/-- The first line that names a slot is read from the first one with its word. -/
theorem firstWith_of_find? (h : List.Forall₂ (Placed source) places lines)
    (hword : slot.word? = some word) (hfind : lines.find? (·.slot? = some slot) = some line) :
    ∃ place, FirstWith (HasKey word) places place ∧ Placed source place line := by
  induction h with
  | nil => cases hfind
  | @cons first read places lines hplaced _ ih =>
    have hkey := hplaced.slot?_eq_some_iff hword
    by_cases hslot : read.slot? = some slot
    · rw [List.find?_cons_of_pos (by simpa using hslot)] at hfind
      cases hfind
      exact ⟨first, .head (hkey.1 hslot), hplaced⟩
    · rw [List.find?_cons_of_neg (by simpa using hslot)] at hfind
      obtain ⟨place, hfirst, hread⟩ := ih hfind
      exact ⟨place, hfirst.cons (mt hkey.2 hslot), hread⟩

end

end Grammar

end Extractor
