import Extractor.Text.Search
import Mathlib.Data.List.Infix
/-!
# Where a marker stands

`breakAt?` finds the first place of a marker (`breakAt?_eq_some_iff`), and fails only if there is
none (`breakAt?_eq_none_iff`). A place is the first if no marker is complete before the last character
of the one that stands there (`firstAt_iff`).
-/

namespace Extractor.Text

/-- The marker stands right behind `before`, and nowhere earlier. -/
def FirstAt (marker text before after : List Char) : Prop :=
  text = before ++ marker ++ after ∧
    ∀ b a, text = b ++ marker ++ a → before.length ≤ b.length

section

variable {marker text before after : List Char}

theorem isPrefixOf?_append (marker text : List Char) :
    marker.isPrefixOf? (marker ++ text) = some text := by
  induction marker with
  | nil => cases text <;> rfl
  | cons c marker ih => simp [isPrefixOf?_cons_cons, ih]

theorem isPrefixOf?_eq_some_iff : marker.isPrefixOf? text = some after ↔ text = marker ++ after :=
  ⟨isPrefixOf?_eq_some, fun h => h ▸ isPrefixOf?_append marker after⟩

theorem isPrefixOf?_eq_none_iff : marker.isPrefixOf? text = none ↔ ¬ marker <+: text := by
  constructor
  · rintro h ⟨after, rfl⟩
    rw [isPrefixOf?_append] at h
    exact Option.some_ne_none _ h
  · intro h
    rw [Option.eq_none_iff_forall_ne_some]
    intro after ha
    exact h ⟨after, (isPrefixOf?_eq_some ha).symm⟩

theorem isSuffixOf?_eq_some_iff : marker.isSuffixOf? text = some before ↔ text = before ++ marker := by
  unfold List.isSuffixOf?
  rw [Option.map_eq_some_iff]
  constructor
  · rintro ⟨rest, h, rfl⟩
    rw [← List.reverse_reverse text, isPrefixOf?_eq_some h, List.reverse_append,
      List.reverse_reverse]
  · rintro rfl
    exact ⟨before.reverse, by rw [List.reverse_append, isPrefixOf?_append], List.reverse_reverse _⟩

theorem isSuffixOf_singleton (c : Char) (text : List Char) :
    [c].isSuffixOf text = (text.getLast? == some c) := by
  rw [Bool.eq_iff_iff, List.isSuffixOf_iff_suffix, beq_iff_eq, List.getLast?_eq_some_iff]
  exact exists_congr fun front => eq_comm

theorem breakAt?_of_isPrefixOf? (h : marker.isPrefixOf? text = some after) :
    breakAt? marker text = some ([], after) := by
  cases text with
  | nil =>
    obtain ⟨rfl, rfl⟩ := List.append_eq_nil_iff.1 (isPrefixOf?_eq_some h).symm
    rfl
  | cons c text => simp only [breakAt?, h]

theorem breakAt?_eq_none_iff : breakAt? marker text = none ↔ ¬ marker <:+: text := by
  induction text with
  | nil => cases marker <;> simp [breakAt?]
  | cons c text ih =>
    rw [List.infix_cons_iff, not_or, ← isPrefixOf?_eq_none_iff, ← ih]
    cases h : marker.isPrefixOf? (c :: text) <;> simp [breakAt?, h]

theorem occursIn_iff : occursIn marker text = true ↔ marker <:+: text := by
  rw [occursIn, Option.isSome_iff_ne_none, ne_eq, breakAt?_eq_none_iff, not_not]

/-- No marker stands earlier than the one that is found. -/
theorem length_le_of_breakAt? (h : breakAt? marker text = some (before, after)) {b a : List Char}
    (ht : text = b ++ marker ++ a) : before.length ≤ b.length := by
  induction text generalizing before b with
  | nil =>
    have := length_of_breakAt? h
    simp only [List.length_nil] at this
    omega
  | cons c text ih =>
    cases b with
    | nil =>
      have hp : marker.isPrefixOf? (c :: text) = some a := isPrefixOf?_eq_some_iff.2 ht
      rw [breakAt?_of_isPrefixOf? hp] at h
      cases h
      exact Nat.le_refl 0
    | cons d b =>
      cases hp : marker.isPrefixOf? (c :: text) with
      | some rest =>
        rw [breakAt?_of_isPrefixOf? hp] at h
        cases h
        exact Nat.zero_le _
      | none =>
        simp only [breakAt?, hp, Option.map_eq_some_iff] at h
        obtain ⟨⟨before', after'⟩, h, heq⟩ := h
        cases heq
        simp only [List.cons_append, List.cons.injEq] at ht
        exact Nat.succ_le_succ (ih h ht.2)

theorem breakAt?_eq_some_iff :
    breakAt? marker text = some (before, after) ↔ FirstAt marker text before after := by
  constructor
  · intro h
    exact ⟨breakAt?_eq_some h, fun _ _ => length_le_of_breakAt? h⟩
  · rintro ⟨rfl, hfirst⟩
    cases h : breakAt? marker (before ++ marker ++ after) with
    | none => exact absurd ⟨before, after, rfl⟩ (breakAt?_eq_none_iff.1 h)
    | some found =>
      obtain ⟨b, a⟩ := found
      have hba := breakAt?_eq_some h
      have hlen : b.length = before.length :=
        Nat.le_antisymm (length_le_of_breakAt? h rfl) (hfirst b a hba)
      rw [List.append_assoc, List.append_assoc] at hba
      obtain ⟨rfl, hrest⟩ := List.append_inj hba hlen.symm
      rw [List.append_cancel_left hrest]

end

/-! ## What a marker does not reach over -/

section

variable {marker text before after s tail : List Char} {c : Char}

theorem prefix_of_prefix_append (hc : c ∉ marker) (h : marker <+: s ++ c :: tail) :
    marker <+: s := by
  induction marker generalizing s with
  | nil => exact List.nil_prefix
  | cons d marker ih =>
    rw [List.mem_cons, not_or] at hc
    cases s with
    | nil => exact absurd (List.cons_prefix_cons.1 h).1.symm hc.1
    | cons e s =>
      rw [List.cons_append, List.cons_prefix_cons] at h
      rw [List.cons_prefix_cons]
      exact ⟨h.1, ih hc.2 h.2⟩

/-- What stands in two parts with a character of its own between them stands in one of them. -/
theorem infix_append_cons_iff (hc : c ∉ marker) (hne : marker ≠ []) :
    marker <:+: s ++ c :: tail ↔ marker <:+: s ∨ marker <:+: tail := by
  constructor
  · intro h
    induction s with
    | nil =>
      rw [List.nil_append, List.infix_cons_iff] at h
      rcases h with h | h
      · exact absurd (List.prefix_nil.1 (prefix_of_prefix_append (s := []) hc h)) hne
      · exact Or.inr h
    | cons e s ih =>
      rw [List.cons_append, List.infix_cons_iff, ← List.cons_append] at h
      rcases h with h | h
      · exact Or.inl (prefix_of_prefix_append hc h).isInfix
      · exact (ih h).imp_left List.infix_cons
  · rintro (h | h)
    · exact h.trans (List.prefix_append s (c :: tail)).isInfix
    · exact h.trans ((List.suffix_cons c tail).trans (List.suffix_append s _)).isInfix

/-- A marker is the first one if none is complete before its own last character. -/
theorem firstAt_iff (hne : marker ≠ []) : FirstAt marker text before after ↔
    text = before ++ marker ++ after ∧ ¬ marker <:+: before ++ marker.dropLast := by
  have hlength : 0 < marker.length := List.length_pos_iff.2 hne
  refine and_congr_right fun htext => ⟨?_, fun hnone b a hba => ?_⟩
  · rintro hfirst ⟨b, a, hba⟩
    have hle : before.length ≤ b.length := by
      refine hfirst b (a ++ marker.getLast hne :: after) ?_
      calc text = before ++ (marker.dropLast ++ [marker.getLast hne]) ++ after := by
            rw [htext, List.dropLast_append_getLast hne]
        _ = before ++ marker.dropLast ++ marker.getLast hne :: after := by simp
        _ = b ++ marker ++ (a ++ marker.getLast hne :: after) := by simp [← hba]
    have htotal := congrArg List.length hba
    simp only [List.length_append, List.length_dropLast] at htotal
    omega
  · by_contra hlt
    -- An earlier marker ends before the last character of this one.
    have hshort : (b ++ marker).length ≤ (before ++ marker.dropLast).length := by
      simp only [List.length_append, List.length_dropLast]
      omega
    have hbefore : before ++ marker.dropLast <+: text := by
      rw [htext, List.append_assoc]
      exact (List.prefix_append_right_inj before).2
        ((List.dropLast_prefix marker).trans (List.prefix_append marker after))
    have hb : b ++ marker <+: text := ⟨a, hba.symm⟩
    exact hnone ((List.suffix_append b marker).isInfix.trans
      (List.prefix_of_prefix_length_le hb hbefore hshort).isInfix)

theorem exists_firstAt (h : marker <:+: text) : ∃ before after, FirstAt marker text before after := by
  cases hfound : breakAt? marker text with
  | none => exact absurd h (breakAt?_eq_none_iff.1 hfound)
  | some found => exact ⟨found.1, found.2, breakAt?_eq_some_iff.1 hfound⟩

/-- What follows a text moves nothing in it. -/
theorem FirstAt.append (hne : marker ≠ []) (h : FirstAt marker text before after) (t : List Char) :
    FirstAt marker (text ++ t) before (after ++ t) := by
  rw [firstAt_iff hne] at h ⊢
  obtain ⟨rfl, hnone⟩ := h
  exact ⟨List.append_assoc _ _ _, hnone⟩

/-- A text without the marker moves the first one to where it ends. -/
theorem FirstAt.prepend (hne : marker ≠ []) (hc : c ∉ marker) (hs : ¬ marker <:+: s)
    (h : FirstAt marker text before after) :
    FirstAt marker (s ++ c :: text) (s ++ c :: before) after := by
  rw [firstAt_iff hne] at h ⊢
  obtain ⟨rfl, hnone⟩ := h
  refine ⟨by simp, ?_⟩
  rw [List.append_assoc, List.cons_append, infix_append_cons_iff hc hne]
  exact not_or.2 ⟨hs, hnone⟩

theorem breakAt?_of_not_infix (hne : marker ≠ []) (h : ¬ marker <:+: before ++ marker.dropLast)
    (after : List Char) : breakAt? marker (before ++ marker ++ after) = some (before, after) :=
  breakAt?_eq_some_iff.2 ((firstAt_iff hne).2 ⟨rfl, h⟩)

end

end Extractor.Text
