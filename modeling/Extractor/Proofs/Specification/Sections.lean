import Extractor.Proofs.Specification.Slots
import Mathlib.Data.List.Basic
/-!
# The sections of a draft

A draft has one section for each slot that its key lines name, in the order in which they first do
(`Enters.readLines`): an indented line never opens a section, since the slot that it adds to has one
already. So the rules of a sort are those of its keys, each with the text of its slot (`rules_eq`).
-/

namespace Extractor

/-! ## Lists without repetitions -/

section

variable {α β : Type} [DecidableEq α] [DecidableEq β]

theorem eraseDups_concat (items : List α) (item : α) :
    (items ++ [item]).eraseDups =
      if item ∈ items then items.eraseDups else items.eraseDups ++ [item] := by
  rw [List.eraseDups_append]
  by_cases h : item ∈ items
  · simp [List.removeAll, h]
  · simp [List.removeAll, h, List.eraseDups_cons]

theorem nodup_eraseDups (items : List α) : items.eraseDups.Nodup := by
  induction items using List.reverseRecOn with
  | nil => exact List.nodup_nil
  | append_singleton items item ih =>
    rw [eraseDups_concat]
    split
    · exact ih
    · next h =>
      refine List.nodup_append.2 ⟨ih, List.pairwise_singleton _ _, fun a ha b hb heq => ?_⟩
      rw [List.mem_singleton.1 hb] at heq
      exact h (List.mem_eraseDups.1 (heq ▸ ha))

/-- Choosing some items first and then dropping repetitions comes to the same, if no two items are
chosen for one result. -/
theorem filterMap_eraseDups (items : List α) {f : α → Option β}
    (hf : ∀ a a' b, f a = some b → f a' = some b → a = a') :
    items.eraseDups.filterMap f = (items.filterMap f).eraseDups := by
  induction items using List.reverseRecOn with
  | nil => rfl
  | append_singleton items item ih =>
    rw [eraseDups_concat, List.filterMap_append]
    cases hitem : f item with
    | none =>
      rw [List.filterMap_cons_none hitem, List.filterMap_nil, List.append_nil, ← ih]
      split
      · rfl
      · rw [List.filterMap_append, List.filterMap_cons_none hitem, List.filterMap_nil,
          List.append_nil]
    | some b =>
      have hmem : b ∈ items.filterMap f ↔ item ∈ items := by
        rw [List.mem_filterMap]
        constructor
        · rintro ⟨a, ha, hab⟩
          exact hf a item b hab hitem ▸ ha
        · exact fun h => ⟨item, h, hitem⟩
      rw [List.filterMap_cons_some hitem, List.filterMap_nil, eraseDups_concat, ← ih]
      by_cases h : item ∈ items
      · rw [if_pos h, if_pos (hmem.2 h)]
      · rw [if_neg h, if_neg (mt hmem.1 h), List.filterMap_append, List.filterMap_cons_some hitem,
          List.filterMap_nil]

end

/-- The slot that a key line names, if it names one. -/
def Line.slot? : Line → Option Slot
  | .continuation _ _ => none
  | .entry key _ keySpan _ =>
    match Slot.ofKey? key keySpan with
    | .ok slot? => slot?
    | .error _ => none

namespace Draft

variable {d next : Draft} {line : Line} {lines : List Line} {given : List Slot}

def slots (d : Draft) : List Slot := d.sections.map Section.slot

theorem slots_addText (slot : Slot) (text : String) (span : Span) (sections : List Section) :
    (addText slot text span sections).map Section.slot =
      if slot ∈ sections.map Section.slot then sections.map Section.slot
      else sections.map Section.slot ++ [slot] := by
  induction sections with
  | nil => rfl
  | cons s sections ih =>
    unfold addText
    by_cases hs : s.slot = slot
    · simp [hs]
    · rw [if_neg hs, List.map_cons, ih, List.map_cons]
      by_cases h : slot ∈ sections.map Section.slot
      · rw [if_pos h, if_pos (List.mem_cons_of_mem _ h)]
      · rw [if_neg h, if_neg, List.cons_append]
        rw [List.mem_cons, not_or]
        exact ⟨Ne.symm hs, h⟩

/-- The sections are those of the slots given so far, and the next indented line belongs to one of
them or to none. -/
structure Enters (d : Draft) (given : List Slot) : Prop where
  slots : d.slots = given.eraseDups
  current : ∀ slot, d.current = some (some slot) → slot ∈ given

theorem enters_empty : Enters empty [] := ⟨rfl, fun _ hcurrent => by cases hcurrent⟩

/-- What becomes of a draft with a line that is taken: the line is skipped, goes on with a
section, names a slot, or has an unknown key. -/
inductive Takes (d : Draft) : Line → Draft → Prop
  | skipped {text : String} {span : Span} (hcurrent : d.current = some none) :
      Takes d (.continuation text span) d
  | more {text : String} {span : Span} {slot : Slot} (hcurrent : d.current = some (some slot)) :
      Takes d (.continuation text span)
        { d with sections := addText slot ("\n" ++ text) span d.sections }
  | named {key value : String} {keySpan span : Span} {slot : Slot}
      (hkey : Slot.ofKey? key keySpan = .ok (some slot)) :
      Takes d (.entry key value keySpan span)
        { d with sections := addText slot value span d.sections, current := some (some slot) }
  | unknown {key value : String} {keySpan span : Span}
      (hkey : Slot.ofKey? key keySpan = .ok none) :
      Takes d (.entry key value keySpan span)
        { d with
          current := some none
          warnings := d.warnings ++ [.unknownKey (span.start.line + 1) key] }

theorem takes_of_step (h : d.step line = .ok next) : d.Takes line next := by
  cases line with
  | continuation text span =>
    simp only [Draft.step] at h
    split at h
    · cases h
    · next hcurrent =>
      cases h
      exact .skipped hcurrent
    · next slot hcurrent =>
      cases h
      exact .more hcurrent
  | entry key value keySpan span =>
    simp only [Draft.step] at h
    cases hkey : Slot.ofKey? key keySpan with
    | error fault =>
      rw [hkey] at h
      cases h
    | ok slot? =>
      rw [hkey] at h
      cases slot? with
      | none =>
        cases h
        exact .unknown hkey
      | some slot =>
        cases h
        exact .named hkey

theorem Enters.step (hd : d.Enters given) (h : d.step line = .ok next) :
    next.Enters (given ++ line.slot?.toList) := by
  cases takes_of_step h with
  | skipped hcurrent =>
    rw [Line.slot?, Option.toList_none, List.append_nil]
    exact hd
  | @more text span slot hcurrent =>
    rw [Line.slot?, Option.toList_none, List.append_nil]
    refine ⟨?_, hd.current⟩
    -- The slot of the line before has a section, so no section is opened here.
    have hslot : slot ∈ d.sections.map Section.slot := by
      rw [← Draft.slots, hd.slots, List.mem_eraseDups]
      exact hd.current slot hcurrent
    rw [Draft.slots, slots_addText, if_pos hslot]
    exact hd.slots
  | named hkey =>
    rw [Line.slot?, hkey]
    refine ⟨?_, ?_⟩
    · rw [Draft.slots, slots_addText, ← Draft.slots, hd.slots, Option.toList_some, eraseDups_concat]
      simp only [List.mem_eraseDups]
    · rintro _ ⟨⟩
      exact List.mem_append_right _ (List.mem_singleton_self _)
  | unknown hkey =>
    rw [Line.slot?, hkey, Option.toList_none, List.append_nil]
    exact ⟨hd.slots, fun _ hcurrent => by cases hcurrent⟩

/-- **The sections come in the order in which their slots are first named.** -/
theorem Enters.readLines (hd : d.Enters given) (h : (d.readLines lines).2 = none) :
    (d.readLines lines).1.Enters (given ++ lines.filterMap Line.slot?) := by
  induction lines generalizing d given with
  | nil => simpa [Draft.readLines] using hd
  | cons line lines ih =>
    unfold Draft.readLines at h ⊢
    cases hstep : d.step line with
    | error fault =>
      rw [hstep] at h
      cases h
    | ok next =>
      rw [hstep] at h
      have hnext := ih (hd.step hstep) h
      rw [List.append_assoc] at hnext
      rw [List.filterMap_cons]
      cases hslot : line.slot? with
      | none => simpa [hslot] using hnext
      | some slot => simpa [hslot] using hnext

/-! ## Rules -/

theorem find?_of_mem {sections : List Section} (hnodup : (sections.map Section.slot).Nodup)
    {s : Section} (hs : s ∈ sections) : sections.find? (·.slot = s.slot) = some s := by
  induction sections with
  | nil => exact absurd hs List.not_mem_nil
  | cons first sections ih =>
    obtain ⟨hfirst, hnodup⟩ := List.nodup_cons.1 hnodup
    rcases List.mem_cons.1 hs with rfl | hs
    · simp
    · have hne : first.slot ≠ s.slot := fun heq => hfirst (heq ▸ List.mem_map_of_mem hs)
      rw [List.find?_cons_of_neg (by simpa using hne)]
      exact ih hnodup hs

/-- What is made of the texts of a sort can be made of its rules. -/
theorem map_keyed {α : Type} (d : Draft) (sort : Slot → Option Key) (f : String → α) :
    ((d.keyed sort).map fun entry => (entry.1, f entry.2.text)) =
      (d.rules sort).map fun rule => (rule.key, f rule.template) := by
  rw [rules, List.map_map]
  rfl

/-- The rules of a sort are its keys in the order of the sections, with the text of their slots. -/
theorem rules_eq {sort : Slot → Option Key} {slotOf : Key → Slot}
    (hsort : ∀ slot key, sort slot = some key → slot = slotOf key) (hnodup : d.slots.Nodup) :
    d.rules sort = (d.slots.filterMap sort).map fun key => ⟨key, d.text (slotOf key)⟩ := by
  rw [rules, keyed, List.map_filterMap, slots, List.filterMap_map, List.map_filterMap]
  refine List.filterMap_congr fun s hs => ?_
  rw [Function.comp_apply]
  cases hkey : sort s.slot with
  | none => rfl
  | some key =>
    have htext : d.text (slotOf key) = s.text := by
      rw [← hsort _ _ hkey, text, find?, find?_of_mem hnodup hs]
      rfl
    simp [htext]

end Draft

end Extractor
