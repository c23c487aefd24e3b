import Extractor.Proofs.Specification.Grammar
import Extractor.Specification.Draft
/-!
# Slots and sections

Which key names which slot, which keys are malformed (`ofKey?_ok`, `ofKey?_error`), and what a line
adds to the text of a slot (`text_addText`).
-/

namespace Extractor

namespace Slot

/-- The one word that names the slot, unless its keys hold a name of their own. -/
def word? : Slot → Option String
  | .format => some "format"
  | .entries => some "entries"
  | .introduction => some "introduction"
  | .entryId => some "entryid"
  | .entryType => some "entrytype"
  | .validation => some "entryvalidation"
  | .postMapping => some "postprocessingmapping"
  | .postFields => some "postprocessingfields"
  | .field _ | .value _ | .itemType _ => none

section

variable {key word : String} {keySpan : Span} {slot : Slot} {slot? : Option Slot} {fault : Fault}
  {others : List (String × (Key → Slot))}

theorem ofWord?_eq_some_iff : ofWord? word = some slot ↔ slot.word? = some word := by
  constructor
  · intro h
    unfold ofWord? at h
    split_ifs at h with h₁ h₂ h₃ h₄ h₅ h₆ h₇ h₈ <;> cases h <;> subst word <;> rfl
  · intro h
    cases slot <;> cases h <;> rfl

/-- No word has one of the openings. -/
theorem not_isPrefix_of_ofWord? (h : ofWord? word = some slot) :
    ∀ opening ∈ openings, ¬ opening.1.toList <+: word.toList := by
  rw [ofWord?_eq_some_iff] at h
  cases slot <;> cases h <;> simp only [openings, List.forall_mem_cons] <;> decide

theorem bracketed?_eq_some_iff {rest : List Char} {name : String} :
    bracketed? rest = some name ↔
      rest = name.toList ++ [']'] ∧ name.toList.all Text.isBlank = false := by
  unfold bracketed?
  constructor
  · intro h
    split at h
    · next inner hsuffix =>
      split_ifs at h with hblank
      cases h
      rw [String.toList_ofList]
      exact ⟨Text.isSuffixOf?_eq_some_iff.1 hsuffix, Bool.eq_false_iff.2 hblank⟩
    · exact nomatch h
  · rintro ⟨rfl, hname⟩
    rw [Text.isSuffixOf?_eq_some_iff.2 rfl]
    simp [hname]

/-- None of the openings starts another one. -/
def Apart (others : List (String × (Key → Slot))) : Prop :=
  others.Pairwise fun a b => ¬ a.1.toList <+: b.1.toList ∧ ¬ b.1.toList <+: a.1.toList

theorem ofBracketed?_ok (hapart : Apart others)
    (h : ofBracketed? key keySpan others = .ok slot?) :
    (∀ opening ∈ others, ∀ rest, key.toList = opening.1.toList ++ rest →
        ∃ name, bracketed? rest = some name ∧ slot? = some (opening.2 (Key.parse name))) ∧
      ∀ slot ∈ slot?, ∃ opening ∈ others,
        opening.1.toList <+: key.toList ∧ ∃ inner, slot = opening.2 inner := by
  induction others with
  | nil =>
    cases h
    exact ⟨fun _ ho => absurd ho List.not_mem_nil, fun _ hslot => nomatch hslot⟩
  | cons o others ih =>
    obtain ⟨opening, slotOf⟩ := o
    obtain ⟨hothers, hapart⟩ := List.pairwise_cons.1 hapart
    unfold ofBracketed? at h
    split at h
    · next hstart =>
      obtain ⟨hclosed, hslot⟩ := ih hapart h
      refine ⟨List.forall_mem_cons.2 ⟨fun rest hkey => ?_, hclosed⟩, fun slot hs => ?_⟩
      · exact absurd ⟨rest, hkey.symm⟩ (Text.isPrefixOf?_eq_none_iff.1 hstart)
      · obtain ⟨other, hother, hinner⟩ := hslot slot hs
        exact ⟨other, List.mem_cons_of_mem _ hother, hinner⟩
    · next rest hstart =>
      split at h
      · next name hname =>
        have hkey := Text.isPrefixOf?_eq_some hstart
        cases h
        refine ⟨List.forall_mem_cons.2 ⟨fun rest' hkey' => ?_, fun other ho rest' hkey' => ?_⟩,
          fun slot hs => ?_⟩
        · rw [hkey] at hkey'
          rw [← List.append_cancel_left hkey']
          exact ⟨name, hname, rfl⟩
        · -- Both openings start the key, so one of them would start the other.
          rcases List.prefix_or_prefix_of_prefix ⟨rest, hkey.symm⟩ ⟨rest', hkey'.symm⟩ with hp | hp
          · exact absurd hp (hothers other ho).1
          · exact absurd hp (hothers other ho).2
        · cases hs
          exact ⟨_, List.mem_cons_self, ⟨rest, hkey.symm⟩, _, rfl⟩
      · exact nomatch h

theorem ofBracketed?_error (h : ofBracketed? key keySpan others = .error fault) :
    ∃ opening ∈ others, fault = .malformedKey key opening.1 keySpan ∧
      ∃ rest, key.toList = opening.1.toList ++ rest ∧ bracketed? rest = none := by
  induction others with
  | nil => exact nomatch h
  | cons o others ih =>
    obtain ⟨opening, slot⟩ := o
    unfold ofBracketed? at h
    split at h
    · obtain ⟨other, hother, hfault⟩ := ih h
      exact ⟨other, List.mem_cons_of_mem _ hother, hfault⟩
    · next rest hstart =>
      split at h
      · exact nomatch h
      · next hname =>
        cases h
        exact ⟨_, List.mem_cons_self, rfl, rest, Text.isPrefixOf?_eq_some hstart, hname⟩

theorem apart_openings : Apart openings := by
  unfold Apart openings
  decide

/-- The openings are those of the grammar, in another order. -/
theorem mem_openings {opening : String} :
    opening ∈ ["field[", "value[", "valueItemType["] ↔ ∃ o ∈ openings, o.1 = opening := by
  simp only [openings, List.mem_cons, List.not_mem_nil, or_false, exists_eq_or_imp, exists_eq_left]
  tauto

theorem closed_iff {key : List Char} :
    Grammar.Closed key ↔ ∀ o ∈ openings, ∀ rest, key = o.1.toList ++ rest →
      ∃ name, bracketed? rest = some name := by
  unfold Grammar.Closed
  constructor
  · intro h o ho rest hkey
    obtain ⟨name, hrest, hname⟩ := h o.1 (mem_openings.2 ⟨o, ho, rfl⟩) rest hkey
    refine ⟨String.ofList name, bracketed?_eq_some_iff.2 ?_⟩
    rw [String.toList_ofList]
    exact ⟨hrest, hname⟩
  · rintro h opening hopening rest hkey
    obtain ⟨o, ho, rfl⟩ := mem_openings.1 hopening
    obtain ⟨name, hname⟩ := h o ho rest hkey
    exact ⟨name.toList, bracketed?_eq_some_iff.1 hname⟩

theorem ofKey?_ok (h : ofKey? key keySpan = .ok slot?) : Grammar.Closed key.toList := by
  rw [closed_iff]
  unfold ofKey? at h
  split at h
  · next slot hword =>
    intro o ho rest hkey
    exact absurd ⟨rest, hkey.symm⟩ (not_isPrefix_of_ofWord? hword o ho)
  · intro o ho rest hkey
    obtain ⟨name, hname, -⟩ := (ofBracketed?_ok apart_openings h).1 o ho rest hkey
    exact ⟨name, hname⟩

theorem ofKey?_error (h : ofKey? key keySpan = .error fault) :
    ¬ Grammar.Closed key.toList ∧ fault.kind = .malformedKey ∧ fault.span = keySpan := by
  rw [closed_iff]
  unfold ofKey? at h
  split at h
  · exact nomatch h
  · obtain ⟨o, ho, rfl, rest, hkey, hrest⟩ := ofBracketed?_error h
    refine ⟨fun hclosed => ?_, rfl, rfl⟩
    obtain ⟨name, hname⟩ := hclosed o ho rest hkey
    rw [hrest] at hname
    exact nomatch hname

/-- A slot with a word is the slot of this word only. -/
theorem ofKey?_ok_iff_of_word? (hword : slot.word? = some word)
    (h : ofKey? key keySpan = .ok slot?) : slot? = some slot ↔ key = word := by
  unfold ofKey? at h
  constructor
  · rintro rfl
    split at h
    · next found hfound =>
      cases h
      rw [ofWord?_eq_some_iff, hword] at hfound
      exact (Option.some.inj hfound).symm
    · obtain ⟨o, ho, -, inner, rfl⟩ := (ofBracketed?_ok apart_openings h).2 slot rfl
      simp only [openings, List.mem_cons, List.not_mem_nil, or_false] at ho
      rcases ho with rfl | rfl | rfl <;> exact nomatch hword
  · rintro rfl
    rw [ofWord?_eq_some_iff.2 hword] at h
    exact (Except.ok.inj h).symm

theorem openings_inj {o o' : String × (Key → Slot)} (ho : o ∈ openings) (ho' : o' ∈ openings)
    {a b : Key} (h : o.2 a = o'.2 b) : o = o' ∧ a = b := by
  simp only [openings, List.mem_cons, List.not_mem_nil, or_false] at ho ho'
  rcases ho with rfl | rfl | rfl <;> rcases ho' with rfl | rfl | rfl <;> cases h <;>
    exact ⟨rfl, rfl⟩

/-- A slot with a key of its own is that of the key in brackets behind its opening. -/
theorem ofKey?_ok_iff_of_opening {o : String × (Key → Slot)} (ho : o ∈ openings) {name : Key}
    (h : ofKey? key keySpan = .ok slot?) :
    slot? = some (o.2 name) ↔ ∃ inner : String,
      key.toList = o.1.toList ++ (inner.toList ++ [']']) ∧ Key.parse inner = name := by
  unfold ofKey? at h
  split at h
  · next slot hslot =>
    cases h
    have hword := ofWord?_eq_some_iff.1 hslot
    constructor
    · rintro ⟨⟩
      simp only [openings, List.mem_cons, List.not_mem_nil, or_false] at ho
      rcases ho with rfl | rfl | rfl <;> exact nomatch hword
    · rintro ⟨inner, hkey, -⟩
      exact absurd ⟨_, hkey.symm⟩ (not_isPrefix_of_ofWord? hslot o ho)
  · obtain ⟨hnamed, hslot⟩ := ofBracketed?_ok apart_openings h
    constructor
    · rintro rfl
      obtain ⟨o', ho', ⟨rest, hrest⟩, name', heq⟩ := hslot _ rfl
      obtain ⟨rfl, rfl⟩ := openings_inj ho ho' heq
      obtain ⟨inner, hinner, hname⟩ := hnamed o ho rest hrest.symm
      obtain ⟨rfl, -⟩ := bracketed?_eq_some_iff.1 hinner
      exact ⟨inner, hrest.symm, (openings_inj ho ho (Option.some.inj hname)).2.symm⟩
    · rintro ⟨inner, hkey, rfl⟩
      obtain ⟨inner', hinner, hname⟩ := hnamed o ho _ hkey
      obtain ⟨heq, -⟩ := bracketed?_eq_some_iff.1 hinner
      rw [hname, String.toList_inj.1 (List.append_cancel_right heq)]

end

end Slot

namespace Draft

variable {d : Draft} {slot? : Option Slot} {key text value : String} {keySpan span : Span}

/-- A line adds to the text of its own slot. -/
theorem text_addText (d : Draft) (slot other : Slot) (text : String) (span : Span)
    (current : Option (Option Slot)) (warnings : List Warning) :
    Draft.text ⟨addText slot text span d.sections, current, warnings⟩ other =
      d.text other ++ if slot = other then text else "" := by
  unfold Draft.text find?
  induction d.sections with
  | nil => by_cases h : slot = other <;> simp [addText, h]
  | cons s sections ih =>
    unfold addText
    by_cases hs : s.slot = slot
    · rw [if_pos hs]
      by_cases h : slot = other
      · simp [hs, h]
      · simp [hs, h]
    · rw [if_neg hs]
      by_cases h : s.slot = other
      · have hne : slot ≠ other := fun heq => hs (h.trans heq.symm)
        simp [h, hne]
      · simpa [h] using ih

/-- One line later, a text has been added for a slot, or thrown away when there is none, and
indented lines go to the same place. -/
def Adds (d next : Draft) (slot? : Option Slot) (text : String) : Prop :=
  next.current = some slot? ∧
    ∀ other, next.text other = d.text other ++ if slot? = some other then text else ""

theorem step_continuation (h : d.current = some slot?) :
    ∃ next, d.step (.continuation text span) = .ok next ∧ Adds d next slot? ("\n" ++ text) := by
  unfold step
  rw [h]
  cases slot? with
  | none => exact ⟨d, rfl, h, fun other => by simp⟩
  | some slot =>
    refine ⟨_, rfl, rfl, fun other => ?_⟩
    simpa using text_addText d slot other ("\n" ++ text) span _ _

theorem step_entry (h : Slot.ofKey? key keySpan = .ok slot?) :
    ∃ next, d.step (.entry key value keySpan span) = .ok next ∧ Adds d next slot? value := by
  simp only [step, h]
  cases slot? with
  | none =>
    refine ⟨_, rfl, rfl, fun other => ?_⟩
    rw [if_neg (Option.some_ne_none other).symm, String.append_empty]
    rfl
  | some slot =>
    refine ⟨_, rfl, rfl, fun other => ?_⟩
    simpa using text_addText d slot other value span _ _

end Draft

end Extractor
