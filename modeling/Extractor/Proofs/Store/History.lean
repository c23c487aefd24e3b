import Extractor.Proofs.Store
import Extractor.Proofs.Text.ByteOrder
import Mathlib.Data.Finset.Card
/-!
# What a store shows of its history

A store that was filled by calls of `append` shows, at each path, the values of the calls there in the
order of the calls, and lists the paths in the order of their bytes (`ofList_observed`). It keeps
nothing else of its history: two histories leave the same store exactly if they agree at each path
(`ofList_eq_ofList_iff`).
-/

namespace Extractor.Store

open Text (bytes)

/-- The values that the calls append at a path, in the order of the calls. -/
def appendedAt (path : String) (calls : List (String × String)) : List String :=
  (calls.filter fun call => call.1 = path).map (·.2)

/-- Every path that the store lists has a value. -/
def Filled (s : Store) : Prop := ∀ entry ∈ s.toList, entry.2 ≠ []

section

variable {path other value value' : String} {values : List String} {entries : List (String × List String)}
  {s t : Store} {calls others : List (String × String)}

/-! ## No path without a value -/

theorem ne_nil_of_mem_insertValue (h : ∀ entry ∈ entries, entry.2 ≠ []) :
    ∀ entry ∈ insertValue path value entries, entry.2 ≠ [] := by
  induction entries with
  | nil => simp [insertValue]
  | cons first rest ih =>
    obtain ⟨p, values⟩ := first
    obtain ⟨hfirst, hrest⟩ := List.forall_mem_cons.1 h
    simp only [insertValue]
    split
    · exact List.forall_mem_cons.2 ⟨List.cons_ne_nil _ _, h⟩
    · split
      · have hvalues : values ++ [value] ≠ [] := by simp
        exact List.forall_mem_cons.2 ⟨hvalues, hrest⟩
      · exact List.forall_mem_cons.2 ⟨hfirst, ih hrest⟩

theorem filled_empty : Filled empty := fun _ h => absurd h List.not_mem_nil

theorem Filled.append (h : s.Filled) (path value : String) : (s.append path value).Filled :=
  ne_nil_of_mem_insertValue h

theorem Filled.appendPairs (h : s.Filled) (calls : List (String × String)) :
    (s.appendPairs calls).Filled := by
  induction calls generalizing s with
  | nil => exact h
  | cons call calls ih => exact ih (h.append call.1 call.2)

/-! ## The entries of a store -/

theorem lookup_eq_some_iff_mem (h : entries.Pairwise fun a b => a.1 < b.1) :
    entries.lookup path = some values ↔ (path, values) ∈ entries := by
  rw [List.lookup_eq_some_iff]
  constructor
  · rintro ⟨front, back, rfl, -⟩
    exact List.mem_append_right _ List.mem_cons_self
  · intro hmem
    obtain ⟨front, back, rfl⟩ := List.append_of_mem hmem
    refine ⟨front, back, rfl, fun entry hentry => ?_⟩
    have hlt : entry.1 < path := (List.pairwise_append.1 h).2.2 entry hentry _ List.mem_cons_self
    exact bne_iff_ne.2 (ne_of_gt hlt)

/-- A store lists the paths at which there is a value, each with its values. -/
theorem mem_toList_iff (hs : s.Ordered) (hf : s.Filled) :
    (path, values) ∈ s.toList ↔ s.get path = values ∧ values ≠ [] := by
  rw [← lookup_eq_some_iff_mem hs, get]
  constructor
  · intro hlookup
    rw [hlookup]
    exact ⟨rfl, hf _ ((lookup_eq_some_iff_mem hs).1 hlookup)⟩
  · rintro ⟨rfl, hne⟩
    cases hlookup : s.toList.lookup path with
    | none =>
      rw [hlookup] at hne
      exact absurd rfl hne
    | some values => rfl

theorem Ordered.nodup_paths (hs : s.Ordered) : (s.toList.map (·.1)).Nodup :=
  List.pairwise_map.2 (hs.imp ne_of_lt)

/-- What can be read at the paths is all that there is in a store. -/
theorem eq_of_get_eq (hs : s.Ordered) (hf : s.Filled) (ht : t.Ordered) (hf' : t.Filled)
    (h : ∀ path, s.get path = t.get path) : s = t := by
  have hperm : s.toList.Perm t.toList := by
    refine (List.perm_ext_iff_of_nodup hs.nodup_paths.of_map ht.nodup_paths.of_map).2 ?_
    rintro ⟨path, values⟩
    rw [mem_toList_iff hs hf, mem_toList_iff ht hf', h]
  have hlist : s.toList = t.toList :=
    hperm.eq_of_pairwise (fun _ _ _ _ hlt hgt => absurd hgt (lt_asymm hlt)) hs ht
  obtain ⟨entries⟩ := s
  exact congrArg Store.mk hlist

/-! ## Histories -/

theorem appendedAt_append (path : String) (calls others : List (String × String)) :
    appendedAt path (calls ++ others) = appendedAt path calls ++ appendedAt path others := by
  rw [appendedAt, List.filter_append, List.map_append, ← appendedAt, ← appendedAt]

theorem appendedAt_ne_nil_iff : appendedAt path calls ≠ [] ↔ path ∈ calls.map (·.1) := by
  rw [appendedAt, ne_eq, List.map_eq_nil_iff, List.filter_eq_nil_iff, List.mem_map]
  simp

/-- Calls at two paths do not meet. -/
theorem appendedAt_exchange (h : path ≠ other) (place : String) :
    appendedAt place [(path, value), (other, value')] =
      appendedAt place [(other, value'), (path, value)] := by
  by_cases hpath : path = place
  · subst hpath
    simp [appendedAt, h.symm]
  · simp [appendedAt, List.filter_cons, hpath]

theorem ordered_ofList (calls : List (String × String)) : (ofList calls).Ordered :=
  ordered_appendPairs ordered_empty calls

theorem filled_ofList (calls : List (String × String)) : (ofList calls).Filled :=
  filled_empty.appendPairs calls

theorem get_ofList_eq (calls : List (String × String)) (path : String) :
    (ofList calls).get path = appendedAt path calls := get_ofList calls path

theorem mem_toList_ofList_iff :
    (path, values) ∈ (ofList calls).toList ↔ appendedAt path calls = values ∧ values ≠ [] := by
  rw [mem_toList_iff (ordered_ofList calls) (filled_ofList calls), get_ofList_eq]

theorem mem_paths_ofList_iff :
    path ∈ (ofList calls).toList.map (·.1) ↔ path ∈ calls.map (·.1) := by
  rw [← appendedAt_ne_nil_iff, List.mem_map]
  constructor
  · rintro ⟨⟨path, values⟩, hentry, rfl⟩
    obtain ⟨hvalues, hne⟩ := mem_toList_ofList_iff.1 hentry
    rwa [hvalues]
  · exact fun hne => ⟨_, mem_toList_ofList_iff.2 ⟨rfl, hne⟩, rfl⟩

/-- **A store is what its history has at each path.** -/
theorem ofList_eq_ofList_iff :
    ofList calls = ofList others ↔ ∀ path, appendedAt path calls = appendedAt path others := by
  simp only [← get_ofList_eq]
  exact ⟨fun h path => congrArg (Store.get · path) h,
    eq_of_get_eq (ordered_ofList _) (filled_ofList _) (ordered_ofList _) (filled_ofList _)⟩

end

/-- **What a store shows of the calls that filled it.** At each path these are the values of the calls
there, in the order of the calls; the paths of the calls are listed in the order of their bytes, each
once and with its values. Calls that stand next to each other and are at two paths may be exchanged. -/
theorem ofList_observed (calls : List (String × String)) :
    (∀ path, (ofList calls).get path = appendedAt path calls ∧
        (ofList calls).join path = "\n".intercalate (appendedAt path calls)) ∧
      (∀ path ∉ calls.map (·.1), (ofList calls).get path = []) ∧
      (ofList calls).size = (calls.map (·.1)).toFinset.card ∧
      ((∀ path ∈ calls.map (·.1), ((ofList calls).toList.map (·.1)).count path = 1) ∧
        (ofList calls).toList.Pairwise (fun entry next => bytes entry.1 < bytes next.1) ∧
        ∀ entry ∈ (ofList calls).toList,
          entry.1 ∈ calls.map (·.1) ∧ entry.2 = appendedAt entry.1 calls ∧ entry.2 ≠ []) ∧
      ∀ before after path other value value', path ≠ other →
        calls = before ++ [(path, value), (other, value')] ++ after →
        ofList calls = ofList (before ++ [(other, value'), (path, value)] ++ after) := by
  have hordered := ordered_ofList calls
  refine ⟨fun path => ?_, fun path hpath => ?_, ?_, ⟨fun path hpath => ?_, ?_, fun entry hentry => ?_⟩,
    ?_⟩
  · rw [join, get_ofList_eq]
    exact ⟨rfl, rfl⟩
  · rw [get_ofList_eq]
    exact not_not.1 (mt appendedAt_ne_nil_iff.1 hpath)
  · calc (ofList calls).size
        = ((ofList calls).toList.map (·.1)).length := (List.length_map _).symm
      _ = ((ofList calls).toList.map (·.1)).toFinset.card :=
        (List.toFinset_card_of_nodup hordered.nodup_paths).symm
      _ = (calls.map (·.1)).toFinset.card := by
        congr 1
        ext path
        rw [List.mem_toFinset, List.mem_toFinset, mem_paths_ofList_iff]
  · exact List.count_eq_one_of_mem hordered.nodup_paths (mem_paths_ofList_iff.2 hpath)
  · exact hordered.imp Text.bytes_lt_bytes
  · obtain ⟨hvalues, hne⟩ := mem_toList_ofList_iff.1 hentry
    exact ⟨mem_paths_ofList_iff.1 (List.mem_map_of_mem hentry), hvalues.symm, hne⟩
  · rintro before after path other value value' hne rfl
    rw [ofList_eq_ofList_iff]
    intro place
    simp only [appendedAt_append, appendedAt_exchange hne]

/-- Paths that the units of another encoding would put in another order. -/
theorem ofList_observed_exchanged :
    let calls := [("𝕏", "1"), ("a/@～", "2"), ("a", "3"), ("～", "4"), ("a", "3")]
    let others := [("𝕏", "1"), ("a", "3"), ("a/@～", "2"), ("～", "4"), ("a", "3")]
    ofList calls = ofList others ∧ (ofList calls).size = 4 ∧
      (ofList calls).toList =
        [("a", ["3", "3"]), ("a/@～", ["2"]), ("～", ["4"]), ("𝕏", ["1"])] := by
  intro calls others
  obtain ⟨-, -, hsize, -, hexchange⟩ := ofList_observed calls
  refine ⟨?_, hsize.trans (by decide +kernel), by decide +kernel⟩
  exact hexchange [("𝕏", "1")] [("～", "4"), ("a", "3")] "a/@～" "a" "2" "3"
    (by decide) rfl

end Extractor.Store
