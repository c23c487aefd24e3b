import Extractor.Store
import Mathlib.Data.String.Basic
/-!
# What a store holds

Appending keeps the paths of a store in order (`ordered_append`), so each path has one list of
values, and what was appended at a path is found there again (`get_append`). `pairs` lists all that
a store holds, path by path: it is what was appended, in another order (`pairs_ofList_perm`). The
part of a store at some paths does not depend on what was appended at others (`restrict_ofList`).
-/

namespace Extractor.Store

open scoped List

/-- The paths ascend, and so none stands twice. -/
def Ordered (s : Store) : Prop := s.toList.Pairwise fun a b => a.1 < b.1

/-- All values with their paths, path by path. -/
def pairs (s : Store) : List (String × String) :=
  s.toList.flatMap fun (path, values) => values.map (path, ·)

/-- Appends the values of some pairs at their paths, in order. -/
def appendPairs (s : Store) (added : List (String × String)) : Store :=
  added.foldl (fun s (path, value) => s.append path value) s

section Insert

variable {path value : String} {entries : List (String × List String)}

theorem fst_of_mem_insertValue {e : String × List String} (h : e ∈ insertValue path value entries) :
    e.1 = path ∨ ∃ e' ∈ entries, e'.1 = e.1 := by
  induction entries with
  | nil =>
    simp only [insertValue, List.mem_singleton] at h
    exact Or.inl (by rw [h])
  | cons first rest ih =>
    obtain ⟨p, values⟩ := first
    simp only [insertValue] at h
    split at h
    · rcases List.mem_cons.1 h with rfl | h
      · exact Or.inl rfl
      · exact Or.inr ⟨e, h, rfl⟩
    · split at h
      · rcases List.mem_cons.1 h with rfl | h
        · exact Or.inr ⟨_, List.mem_cons_self, rfl⟩
        · exact Or.inr ⟨e, List.mem_cons_of_mem _ h, rfl⟩
      · rcases List.mem_cons.1 h with rfl | h
        · exact Or.inr ⟨_, List.mem_cons_self, rfl⟩
        · rcases ih h with h | ⟨e', he, h⟩
          · exact Or.inl h
          · exact Or.inr ⟨e', List.mem_cons_of_mem _ he, h⟩

theorem pairwise_insertValue (h : entries.Pairwise fun a b => a.1 < b.1) :
    (insertValue path value entries).Pairwise fun a b => a.1 < b.1 := by
  induction entries with
  | nil => exact List.pairwise_singleton _ _
  | cons first rest ih =>
    obtain ⟨p, values⟩ := first
    obtain ⟨hp, hrest⟩ := List.pairwise_cons.1 h
    simp only [insertValue]
    split
    · next hlt =>
      refine List.pairwise_cons.2 ⟨fun e he => ?_, h⟩
      rcases List.mem_cons.1 he with rfl | he
      · exact hlt
      · exact lt_trans hlt (hp e he)
    · split
      · exact List.pairwise_cons.2 ⟨hp, hrest⟩
      · next hlt hne =>
        refine List.pairwise_cons.2 ⟨fun e he => ?_, ih hrest⟩
        rcases fst_of_mem_insertValue he with h | ⟨e', he', h⟩
        · rw [h]
          exact lt_of_le_of_ne (not_lt.1 hlt) (Ne.symm hne)
        · rw [← h]
          exact hp e' he'

theorem lookup_eq_none_of_lt (h : ∀ e ∈ entries, path < e.1) : entries.lookup path = none := by
  rw [List.lookup_eq_none_iff]
  intro e he
  exact bne_iff_ne.2 (ne_of_lt (h e he))

theorem lookup_insertValue (h : entries.Pairwise fun a b => a.1 < b.1) (other : String) :
    (insertValue path value entries).lookup other =
      if other = path then some ((entries.lookup path).getD [] ++ [value])
      else entries.lookup other := by
  induction entries with
  | nil =>
    by_cases ho : other = path
    · simp [insertValue, ho]
    · simp [insertValue, List.lookup_cons, ho, beq_false_of_ne ho]
  | cons first rest ih =>
    obtain ⟨p, values⟩ := first
    obtain ⟨hp, hrest⟩ := List.pairwise_cons.1 h
    simp only [insertValue]
    split
    · next hlt =>
      have hnone : ((p, values) :: rest).lookup path = none := by
        apply lookup_eq_none_of_lt
        intro e he
        rcases List.mem_cons.1 he with rfl | he
        · exact hlt
        · exact lt_trans hlt (hp e he)
      rw [hnone, List.lookup_cons]
      by_cases ho : other = path
      · simp [ho]
      · simp [ho, beq_false_of_ne ho]
    · split
      · next heq =>
        subst heq
        by_cases ho : other = path
        · simp [ho]
        · simp [List.lookup_cons, ho, beq_false_of_ne ho]
      · next hne =>
        rw [List.lookup_cons, List.lookup_cons, List.lookup_cons, ih hrest, beq_false_of_ne hne]
        by_cases ho : other = path
        · subst ho
          simp [beq_false_of_ne hne]
        · simp [ho]

theorem insertValue_of_lt (h : ∀ e ∈ entries, path < e.1) :
    insertValue path value entries = (path, [value]) :: entries := by
  cases entries with
  | nil => rfl
  | cons first rest => rw [insertValue, if_pos (h first List.mem_cons_self)]

/-- A value goes to its place among the paths that are kept, and nowhere if its own is not. -/
theorem filter_insertValue (keep : String → Bool) (h : entries.Pairwise fun a b => a.1 < b.1) :
    (insertValue path value entries).filter (fun e => keep e.1) =
      if keep path then insertValue path value (entries.filter fun e => keep e.1)
      else entries.filter fun e => keep e.1 := by
  induction entries with
  | nil => cases hk : keep path <;> simp [insertValue, hk]
  | cons first rest ih =>
    obtain ⟨p, values⟩ := first
    obtain ⟨hp, hrest⟩ := List.pairwise_cons.1 h
    simp only [insertValue]
    split
    · next hlt =>
      have hbehind : ∀ e ∈ ((p, values) :: rest).filter (fun e => keep e.1), path < e.1 := by
        intro e he
        rcases List.mem_cons.1 (List.mem_of_mem_filter he) with rfl | he
        · exact hlt
        · exact lt_trans hlt (hp e he)
      rw [insertValue_of_lt hbehind, List.filter_cons]
    · split
      · next heq =>
        subst heq
        cases hk : keep path <;> simp [insertValue, hk]
      · next hlt hne =>
        rw [List.filter_cons, ih hrest, List.filter_cons]
        cases hk : keep p <;> cases hk' : keep path <;> simp [insertValue, hlt, hne]

theorem flatMap_insertValue_perm :
    (insertValue path value entries).flatMap (fun (p, values) => values.map (p, ·)) ~
      entries.flatMap (fun (p, values) => values.map (p, ·)) ++ [(path, value)] := by
  induction entries with
  | nil => exact List.Perm.refl _
  | cons first rest ih =>
    obtain ⟨p, values⟩ := first
    simp only [insertValue]
    split
    · exact (List.perm_append_singleton _ _).symm
    · split
      · next heq =>
        subst heq
        simp only [List.flatMap_cons, List.map_append, List.map_cons, List.map_nil,
          List.append_assoc]
        exact List.Perm.append_left _ List.perm_append_comm
      · simp only [List.flatMap_cons, List.append_assoc]
        exact List.Perm.append_left _ ih

end Insert

section

variable {s : Store}

theorem ordered_empty : Ordered empty := List.Pairwise.nil

theorem ordered_append (h : s.Ordered) (path value : String) : (s.append path value).Ordered :=
  pairwise_insertValue h

theorem get_append (h : s.Ordered) (path value other : String) :
    (s.append path value).get other =
      if other = path then s.get path ++ [value] else s.get other := by
  simp only [get, append, lookup_insertValue h]
  split <;> rfl

theorem pairs_append_perm (s : Store) (path value : String) :
    (s.append path value).pairs ~ s.pairs ++ [(path, value)] :=
  flatMap_insertValue_perm

theorem append_ne_empty (s : Store) (path value : String) : (s.append path value).isEmpty = false := by
  obtain ⟨entries⟩ := s
  cases entries with
  | nil => rfl
  | cons first rest =>
    simp only [append, isEmpty, insertValue]
    split
    · rfl
    · split <;> rfl

/-! ## Appending many values -/

@[simp] theorem appendPairs_nil (s : Store) : s.appendPairs [] = s := rfl

@[simp] theorem appendPairs_cons (s : Store) (path value : String) (rest : List (String × String)) :
    s.appendPairs ((path, value) :: rest) = (s.append path value).appendPairs rest := rfl

theorem appendPairs_append (s : Store) (first rest : List (String × String)) :
    s.appendPairs (first ++ rest) = (s.appendPairs first).appendPairs rest := List.foldl_append

theorem ofList_eq (added : List (String × String)) : ofList added = empty.appendPairs added := rfl

theorem appendAll_eq (s : Store) (path : String) (values : List String) :
    s.appendAll path values = s.appendPairs (values.map (path, ·)) := by
  rw [appendPairs, List.foldl_map]
  rfl

theorem ordered_appendPairs (h : s.Ordered) (added : List (String × String)) :
    (s.appendPairs added).Ordered := by
  induction added generalizing s with
  | nil => exact h
  | cons first rest ih => exact ih (ordered_append h first.1 first.2)

theorem get_appendPairs (h : s.Ordered) (added : List (String × String)) (path : String) :
    (s.appendPairs added).get path =
      s.get path ++ (added.filter fun entry => entry.1 = path).map (·.2) := by
  induction added generalizing s with
  | nil => simp
  | cons first rest ih =>
    obtain ⟨p, value⟩ := first
    rw [appendPairs_cons, ih (ordered_append h p value), get_append h]
    by_cases hp : path = p
    · simp [hp]
    · simp [hp, Ne.symm hp]

theorem pairs_appendPairs_perm (s : Store) (added : List (String × String)) :
    (s.appendPairs added).pairs ~ s.pairs ++ added := by
  induction added generalizing s with
  | nil => simp
  | cons first rest ih =>
    obtain ⟨path, value⟩ := first
    rw [appendPairs_cons]
    calc ((s.append path value).appendPairs rest).pairs
        ~ (s.append path value).pairs ++ rest := ih _
      _ ~ (s.pairs ++ [(path, value)]) ++ rest := (pairs_append_perm s path value).append_right rest
      _ = s.pairs ++ (path, value) :: rest := by simp

/-- Path by path, the paths ascend. -/
theorem pairwise_pairs (h : s.Ordered) : s.pairs.Pairwise fun a b => a.1 ≤ b.1 := by
  refine List.pairwise_flatMap.2 ⟨fun entry _ => ?_, h.imp fun hlt a ha b hb => ?_⟩
  · rw [List.pairwise_map]
    exact List.pairwise_of_forall fun _ _ => le_refl _
  · obtain ⟨_, -, rfl⟩ := List.mem_map.1 ha
    obtain ⟨_, -, rfl⟩ := List.mem_map.1 hb
    exact le_of_lt hlt

/-- A store that was filled in order gives the values at a path in that order. -/
theorem get_ofList (added : List (String × String)) (path : String) :
    (ofList added).get path = (added.filter fun entry => entry.1 = path).map (·.2) := by
  rw [ofList_eq, get_appendPairs ordered_empty]
  rfl

/-- Filling a store loses nothing and adds nothing. -/
theorem pairs_ofList_perm (added : List (String × String)) : (ofList added).pairs ~ added :=
  pairs_appendPairs_perm empty added

/-! ## Part of a store -/

/-- What a store holds at the paths that are kept. -/
def restrict (keep : String → Bool) (s : Store) : Store :=
  ⟨s.toList.filter fun entry => keep entry.1⟩

theorem pairs_restrict (keep : String → Bool) (s : Store) :
    (s.restrict keep).pairs = s.pairs.filter fun entry => keep entry.1 := by
  obtain ⟨entries⟩ := s
  simp only [pairs, restrict]
  induction entries with
  | nil => rfl
  | cons first rest ih =>
    obtain ⟨path, values⟩ := first
    rw [List.flatMap_cons, List.filter_append, ← ih, List.filter_map]
    cases hk : keep path <;> simp [hk, Function.comp_def]

theorem restrict_append (keep : String → Bool) (h : s.Ordered) (path value : String) :
    (s.append path value).restrict keep =
      if keep path then (s.restrict keep).append path value else s.restrict keep := by
  simp only [restrict, append, filter_insertValue keep h]
  split <;> rfl

theorem restrict_appendPairs (keep : String → Bool) (h : s.Ordered)
    (added : List (String × String)) :
    (s.appendPairs added).restrict keep =
      (s.restrict keep).appendPairs (added.filter fun entry => keep entry.1) := by
  induction added generalizing s with
  | nil => rfl
  | cons first rest ih =>
    obtain ⟨path, value⟩ := first
    rw [appendPairs_cons, ih (ordered_append h path value), restrict_append keep h]
    cases hk : keep path <;> simp [hk]

/-- A part of a store is what one gets from that part of what was appended. -/
theorem restrict_ofList (keep : String → Bool) (added : List (String × String)) :
    (ofList added).restrict keep = ofList (added.filter fun entry => keep entry.1) := by
  rw [ofList_eq, restrict_appendPairs keep ordered_empty]
  rfl

theorem isEmpty_ofList (added : List (String × String)) :
    (ofList added).isEmpty = added.isEmpty := by
  have h : ∀ (rest : List (String × String)) (s : Store), s.isEmpty = false →
      (s.appendPairs rest).isEmpty = false := by
    intro rest
    induction rest with
    | nil => exact fun _ hs => hs
    | cons first rest ih => exact fun s _ => ih _ (append_ne_empty s first.1 first.2)
  cases added with
  | nil => rfl
  | cons first rest => exact h rest _ (append_ne_empty empty first.1 first.2)

end

end Extractor.Store
