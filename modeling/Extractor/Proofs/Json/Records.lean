import Extractor.Proofs.Json.Index
import Extractor.Proofs.Json.Leaves
/-!
# Records are cut from the leaves

The record of an item holds the texts of the leaves below it, each under the rest of its path
(`get_cut_perm`); a leaf is found by the start of its joined path alone. There is a record for each
item up to the first one without leaves (`extract_object`).
-/

namespace Extractor.Json

open scoped List

namespace Value

/-- What the paths below an item start with, the array being at the given path. -/
def stem (path : List String) (item : Nat) : String :=
  "/".intercalate path ++ "/" ++ toString item ++ "/"

/-- The path lies below the stem, and `key` is the rest of it without an index at the end. -/
def Below (stem path key : String) : Prop := ∃ rest, path = stem ++ rest ∧ KeyOf rest key

section

variable {start path key : String}

theorem isPrefixOf?_toList_eq_some_iff {rest : List Char} :
    start.toList.isPrefixOf? path.toList = some rest ↔ path = start ++ String.ofList rest := by
  rw [Text.isPrefixOf?_eq_some_iff, ← String.toList_inj, String.toList_append, String.toList_ofList]

theorem below_iff :
    (∃ rest ∈ start.toList.isPrefixOf? path.toList, String.ofList (dropIndex rest) = key) ↔
      Below start path key := by
  simp only [Option.mem_def, isPrefixOf?_toList_eq_some_iff, Below, ← ofList_dropIndex_eq_iff]
  constructor
  · rintro ⟨rest, hpath, hkey⟩
    exact ⟨String.ofList rest, hpath, by rwa [String.toList_ofList]⟩
  · rintro ⟨rest, hpath, hkey⟩
    exact ⟨rest.toList, by rwa [String.ofList_toList], hkey⟩

instance : Decidable (Below start path key) := decidable_of_iff _ below_iff

end

/-! ## Cutting -/

/-- What a record takes over of an entry of the document. -/
def taken? (start : String) (entry : String × String) : Option (String × String) :=
  (start.toList.isPrefixOf? entry.1.toList).map fun rest =>
    (String.ofList (dropIndex rest), entry.2)

theorem filterMap_taken?_map (start path : String) (values : List String) :
    (values.map (path, ·)).filterMap (taken? start) =
      match start.toList.isPrefixOf? path.toList with
      | some rest => values.map (String.ofList (dropIndex rest), ·)
      | none => [] := by
  induction values with
  | nil => cases start.toList.isPrefixOf? path.toList <;> rfl
  | cons value rest ih =>
    rw [List.map_cons, List.filterMap_cons, ih, taken?]
    cases start.toList.isPrefixOf? path.toList <;> rfl

theorem cut_eq (gathered : Store) (start : String) :
    cut gathered start = Store.ofList (gathered.pairs.filterMap (taken? start)) := by
  rw [cut, Store.ofList_eq, Store.pairs]
  generalize gathered.toList = entries
  generalize Store.empty = s
  induction entries generalizing s with
  | nil => rfl
  | cons entry rest ih =>
    obtain ⟨path, values⟩ := entry
    rw [List.foldl_cons, ih, List.flatMap_cons, List.filterMap_append, Store.appendPairs_append]
    dsimp only
    rw [filterMap_taken?_map]
    cases start.toList.isPrefixOf? path.toList with
    | none => rfl
    | some below => exact congrArg (Store.appendPairs · _) (Store.appendAll_eq _ _ _)

theorem cut_gather_perm (root : Value) (start : String) :
    root.gather.pairs.filterMap (taken? start) ~
      ((root.leaves []).map joined).filterMap (taken? start) :=
  root.pairs_gather_perm.filterMap _

theorem filter_taken? (start key : String) (entries : List (String × String)) :
    ((entries.filterMap (taken? start)).filter fun entry => entry.1 = key).map (·.2) =
      (entries.filter fun entry => Below start entry.1 key).map (·.2) := by
  induction entries with
  | nil => rfl
  | cons first rest ih =>
    rw [List.filterMap_cons, List.filter_cons]
    cases hp : start.toList.isPrefixOf? first.1.toList with
    | none =>
      have hbelow : ¬ Below start first.1 key := by
        rw [← below_iff, hp]
        rintro ⟨rest, hrest, -⟩
        exact Option.not_mem_none _ hrest
      simp only [taken?, hp, Option.map_none, hbelow, decide_false, Bool.false_eq_true, if_false]
      exact ih
    | some below =>
      have hbelow : Below start first.1 key ↔ String.ofList (dropIndex below) = key := by
        rw [← below_iff, hp]
        simp
      simp only [taken?, hp, Option.map_some, List.filter_cons, hbelow]
      by_cases hkey : String.ofList (dropIndex below) = key
      · simp only [hkey, decide_true, if_true, List.map_cons]
        exact congrArg _ ih
      · simp only [hkey, decide_false, Bool.false_eq_true, if_false]
        exact ih

/-- A record keeps the order of what it is cut from. -/
theorem get_cut (gathered : Store) (start key : String) :
    (cut gathered start).get key =
      (gathered.pairs.filter fun entry => Below start entry.1 key).map (·.2) := by
  rw [cut_eq, Store.get_ofList, filter_taken?]

theorem filter_pairs_gather_perm (root : Value) (start key : String) :
    root.gather.pairs.filter (fun entry => Below start entry.1 key) ~
      ((root.leaves []).filter fun leaf => Below start (joined leaf).1 key).map joined := by
  have h := root.pairs_gather_perm.filter fun entry => Below start entry.1 key
  rwa [List.filter_map] at h

/-- **A record loses nothing and invents nothing.** -/
theorem get_cut_perm (root : Value) (start key : String) :
    (cut root.gather start).get key ~
      ((root.leaves []).filter fun leaf => Below start (joined leaf).1 key).map (·.2) := by
  rw [get_cut]
  have h := (filter_pairs_gather_perm root start key).map (·.2)
  rwa [List.map_map] at h

theorem isEmpty_cut_eq_false_iff (root : Value) (start : String) :
    (cut root.gather start).isEmpty = false ↔
      ∃ leaf ∈ root.leaves [], ∃ rest, (joined leaf).1 = start ++ rest := by
  have hempty : (root.gather.pairs.filterMap (taken? start)).isEmpty =
      (((root.leaves []).map joined).filterMap (taken? start)).isEmpty :=
    (cut_gather_perm root start).isEmpty_eq
  rw [cut_eq, Store.isEmpty_ofList, hempty, List.isEmpty_eq_false_iff_exists_mem]
  simp only [List.mem_filterMap, List.mem_map]
  constructor
  · rintro ⟨entry, _, ⟨leaf, hleaf, rfl⟩, htaken⟩
    obtain ⟨rest, hrest, -⟩ := Option.map_eq_some_iff.1 htaken
    exact ⟨leaf, hleaf, _, isPrefixOf?_toList_eq_some_iff.1 hrest⟩
  · rintro ⟨leaf, hleaf, rest, hrest⟩
    have hp : start.toList.isPrefixOf? (joined leaf).1.toList = some rest.toList :=
      isPrefixOf?_toList_eq_some_iff.2 (by rwa [String.ofList_toList])
    exact ⟨_, _, ⟨leaf, hleaf, rfl⟩, Option.map_eq_some_iff.2 ⟨_, hp, rfl⟩⟩

/-! ## The records of a document -/

theorem lt_length_takeWhile_iff {α : Type} (p : α → Bool) (l : List α) (n : Nat) :
    n < (l.takeWhile p).length ↔ ∀ m ≤ n, ∃ a, l[m]? = some a ∧ p a = true := by
  induction l generalizing n with
  | nil =>
    simp only [List.takeWhile_nil, List.length_nil, Nat.not_lt_zero, List.getElem?_nil, reduceCtorEq,
      false_and, exists_false, false_iff]
    exact fun h => h n (Nat.le_refl n)
  | cons a l ih =>
    rw [List.takeWhile_cons]
    cases hp : p a with
    | false =>
      simp only [Bool.false_eq_true, if_false, List.length_nil, Nat.not_lt_zero, false_iff]
      intro h
      obtain ⟨b, hb, hpb⟩ := h 0 (Nat.zero_le n)
      cases hb
      rw [hp] at hpb
      exact Bool.false_ne_true hpb
    | true =>
      simp only [if_true, List.length_cons]
      cases n with
      | zero =>
        refine ⟨fun _ m hm => ⟨a, ?_, hp⟩, fun _ => Nat.zero_lt_succ _⟩
        rw [Nat.le_zero.1 hm]
        rfl
      | succ n =>
        rw [Nat.succ_lt_succ_iff, ih]
        constructor
        · intro h m hm
          cases m with
          | zero => exact ⟨a, rfl, hp⟩
          | succ m => exact h m (Nat.succ_le_succ_iff.1 hm)
        · exact fun h m hm => h (m + 1) (Nat.succ_le_succ hm)

variable (root : Value) (path : List String) (maxRecords : Nat)

theorem records_eq : root.records path maxRecords =
    ((List.range (min (root.countAt path) maxRecords)).map fun n =>
      cut root.gather (stem path n)).takeWhile fun s => !s.isEmpty := rfl

theorem eq_cut_of_getElem?_records {n : Nat} {record : Store}
    (h : (root.records path maxRecords)[n]? = some record) :
    record = cut root.gather (stem path n) := by
  rw [records_eq] at h
  obtain ⟨hn, hrecord⟩ := List.getElem?_eq_some_iff.1 h
  rw [(List.takeWhile_prefix _).getElem hn] at hrecord
  rw [← hrecord, List.getElem_map, List.getElem_range]

theorem lt_length_records_iff (n : Nat) :
    n < (root.records path maxRecords).length ↔
      ∀ m ≤ n, m < min (root.countAt path) maxRecords ∧
        ∃ leaf ∈ root.leaves [], ∃ rest, (joined leaf).1 = stem path m ++ rest := by
  rw [records_eq, lt_length_takeWhile_iff]
  refine forall₂_congr fun m _ => ?_
  rw [← isEmpty_cut_eq_false_iff, List.getElem?_map]
  by_cases hm : m < min (root.countAt path) maxRecords
  · rw [List.getElem?_range hm]
    simp [hm]
  · rw [List.getElem?_eq_none (by rwa [List.length_range, ← not_lt])]
    simp only [Option.map_none, reduceCtorEq, false_and, exists_false, hm]

/-- **The records of a document that is an object.** There is one for each item of the array up to
the first one that no leaf lies below, and it holds the texts of the leaves below its item, each
under the rest of its path. The breadth-first search behind it ends, and finds each leaf once. -/
theorem extract_object (members : List (String × Value)) (path : List String) (maxRecords : Nat) :
    let root := Value.object members
    let extraction := root.extract path maxRecords
    (extraction.ok = true ∧ extraction.diagnostics = []) ∧
      (∀ n, n < extraction.records.length ↔
        ∀ m ≤ n, m < min (root.countAt path) maxRecords ∧
          ∃ leaf ∈ root.leaves [], ∃ rest, (joined leaf).1 = stem path m ++ rest) ∧
      (∀ n record, extraction.records[n]? = some record → ∀ key,
        record.get key ~
          ((root.leaves []).filter fun leaf => Below (stem path n) (joined leaf).1 key).map (·.2)) ∧
      Search.step^[root.weight] (Search.start root) = ⟨[], root.gather⟩ ∧
      root.gather.pairs ~ (root.leaves []).map joined := by
  intro root extraction
  refine ⟨⟨rfl, rfl⟩, lt_length_records_iff root path maxRecords, ?_, ?_, ?_⟩
  · intro n record h key
    rw [eq_cut_of_getElem?_records root path maxRecords h]
    exact get_cut_perm root _ key
  · exact Search.iterate_step_start root
  · exact root.pairs_gather_perm

end Value

end Extractor.Json
