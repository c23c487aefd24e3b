import Extractor.Proofs.Json.Paths
/-!
# The order of the values at the path of an array

A store gives its paths in the order of their texts, and the values of an array come to a record
from one path each. So a record lists them in the order of the texts of their indices
(`get_array`): the item with index 10 comes before the one with index 2. Up to ten items this is
their order in the document; a longer array loses it (`get_array_unordered`).
-/

namespace Extractor.Json

open scoped List

namespace Value

/-- The items of an array with their indices, in the order of the texts of these. -/
def byIndexText (items : List Value) : List (String × Value) :=
  (indexed 0 items).mergeSort fun a b => a.1 ≤ b.1

section

variable {items : List Value}

theorem byIndexText_perm (items : List Value) : byIndexText items ~ indexed 0 items :=
  List.mergeSort_perm _ _

theorem pairwise_byIndexText (items : List Value) :
    (byIndexText items).Pairwise fun a b => a.1 < b.1 := by
  have hsorted : (byIndexText items).Pairwise fun a b => a.1 ≤ b.1 := by
    have h : (byIndexText items).Pairwise fun a b => decide (a.1 ≤ b.1) = true := by
      refine List.pairwise_mergeSort (fun a b c hab hbc => ?_) (fun a b => ?_) _
      · exact decide_eq_true (le_trans (of_decide_eq_true hab) (of_decide_eq_true hbc))
      · simpa using le_total a.1 b.1
    exact h.imp of_decide_eq_true
  have hdistinct : (byIndexText items).Pairwise fun a b => a.1 ≠ b.1 :=
    List.pairwise_map.1 (((byIndexText_perm items).map _).nodup_iff.2 (nodup_indexed 0 items))
  exact (hsorted.and hdistinct).imp fun h => lt_of_le_of_ne h.1 h.2

theorem map_snd_indexed (index : Nat) (items : List Value) :
    (indexed index items).map (·.2) = items := by
  induction items generalizing index with
  | nil => rfl
  | cons item rest ih => rw [indexed, List.map_cons, ih]

/-- Indices of one digit are in the same order as their texts. -/
theorem byIndexText_of_length_le (h : items.length ≤ 10) : byIndexText items = indexed 0 items := by
  have hten : ((List.range' 0 10).map toString).Pairwise fun a b : String => a ≤ b := by
    decide +kernel
  have hnames : ((indexed 0 items).map (·.1)).Pairwise fun a b => a ≤ b := by
    rw [map_fst_indexed]
    refine hten.sublist (List.Sublist.map _ ?_)
    exact List.range'_sublist_right.2 h
  refine List.mergeSort_of_pairwise ?_
  exact (List.pairwise_map.1 hnames).imp decide_eq_true

end

/-! ## Order in a record -/

theorem append_lt_append (start : String) {a b : String} (h : a < b) : start ++ a < start ++ b := by
  rw [String.lt_iff_toList_lt] at h ⊢
  rw [String.toList_append, String.toList_append]
  exact List.append_left_lt h

/-- Behind one path, the joined paths are in the order of the names. -/
theorem pairwise_leavesAmong {path : List String} {entries : List (String × Value)}
    (hpath : path ≠ []) (h : entries.Pairwise fun a b => a.1 < b.1) :
    ((leavesAmong path entries).map joined).Pairwise fun a b => a.1 < b.1 := by
  refine List.pairwise_map.2 (h.filterMap _ fun a b hlt x hx y hy => ?_)
  obtain ⟨text, -, rfl⟩ := Option.map_eq_some_iff.1 hx
  obtain ⟨text', -, rfl⟩ := Option.map_eq_some_iff.1 hy
  have hjoin : ∀ name, "/".intercalate (path ++ [name]) = "/".intercalate path ++ "/" ++ name := by
    intro name
    rw [String.intercalate_append_of_ne_nil hpath (List.cons_ne_nil _ _),
      String.intercalate_singleton]
  simp only [joined, hjoin]
  exact append_lt_append _ hlt

theorem map_snd_leavesAmong (path : List String) (entries : List (String × Value)) :
    (leavesAmong path entries).map (·.2) = entries.filterMap (·.2.leafText?) := by
  simp only [leavesAmong, List.map_filterMap, Option.map_map]
  refine List.filterMap_congr fun entry _ => ?_
  exact Option.map_id'

section

variable {root : Value} {path p : List String} {n : Nat} {items : List Value}

theorem gather_ordered (root : Value) : root.gather.Ordered :=
  Store.ordered_appendPairs Store.ordered_empty _

/-- The entries of the document that a record takes over to the key of an array, as they come. -/
theorem filter_pairs_gather (hnames : root.Everywhere Ascending)
    (hslash : root.Everywhere SlashlessNames) (hpath : path ≠ []) (hp : p ≠ [])
    (harray : root.Leads (path ++ toString n :: p) (.array items)) :
    root.gather.pairs.filter (fun entry => Below (stem path n) entry.1 ("/".intercalate p)) =
      (leavesAmong (path ++ toString n :: p) (byIndexText items)).map joined := by
  have hleaves := filter_pairs_gather_perm root (stem path n) ("/".intercalate p)
  rw [filter_below_leaves hnames hslash hpath hp harray] at hleaves
  have hperm := hleaves.trans (((byIndexText_perm items).symm.filterMap _).map joined)
  have hentries := (Store.pairwise_pairs root.gather_ordered).filter
    fun entry => Below (stem path n) entry.1 ("/".intercalate p)
  have hsorted := pairwise_leavesAmong (List.append_ne_nil_of_left_ne_nil hpath (toString n :: p))
    (pairwise_byIndexText items)
  -- Both lists ascend by the same paths, and on the right no path stands twice.
  refine hperm.eq_of_pairwise (fun a b ha hb hab hba => ?_) hentries (hsorted.imp le_of_lt)
  have hdistinct : (((leavesAmong (path ++ toString n :: p) (byIndexText items)).map joined).map
      (·.1)).Nodup := List.pairwise_map.2 (hsorted.imp ne_of_lt)
  exact List.inj_on_of_nodup_map hdistinct (hperm.mem_iff.1 ha) hb (le_antisymm hab hba)

/-- **A record lists the values of an array in the order of the texts of their indices**, and so
in the order of the array if this has at most ten items. -/
theorem get_array {document : String} {maxRecords : Nat} {elements : List Value} {element : Value}
    {record : Store} (hread : Value.read document = .ok root)
    (hslash : root.Everywhere SlashlessNames) (hat : root.at? path = some (.array elements))
    (helement : elements[n]? = some element)
    (hrecord : (Json.extract document path maxRecords).records[n]? = some record) (hp : p ≠ [])
    (harray : element.Leads p (.array items)) :
    record.get ("/".intercalate p) = (byIndexText items).filterMap (·.2.leafText?) ∧
      (items.length ≤ 10 → record.get ("/".intercalate p) = items.filterMap leafText?) := by
  have hnames := read_ascending hread
  have hextract : Json.extract document path maxRecords = root.extract path maxRecords := by
    rw [Json.extract, hread]
  rw [hextract] at hrecord
  obtain ⟨members, rfl⟩ : ∃ members, root = .object members := by
    cases root with
    | object members => exact ⟨members, rfl⟩
    | _ => cases hrecord
  have hpath : path ≠ [] := by
    rintro rfl
    cases hat
  have hitem := leads_item_of_records rfl hnames hslash hpath hat helement hrecord
  have hroot : (Value.object members).Leads (path ++ toString n :: p) (.array items) := by
    rw [List.append_cons]
    exact hitem.append harray
  have hget : record.get ("/".intercalate p) = (byIndexText items).filterMap (·.2.leafText?) := by
    rw [eq_cut_of_getElem?_records _ path maxRecords hrecord, get_cut,
      filter_pairs_gather hnames hslash hpath hp hroot, List.map_map]
    exact map_snd_leavesAmong _ _
  refine ⟨hget, fun hlength => ?_⟩
  calc record.get ("/".intercalate p)
      = (indexed 0 items).filterMap (·.2.leafText?) := by
        rw [hget, byIndexText_of_length_le hlength]
    _ = ((indexed 0 items).map (·.2)).filterMap leafText? := by
        rw [List.filterMap_map]
        rfl
    _ = items.filterMap leafText? := by rw [map_snd_indexed]

end

/-! ## Eleven items -/

/-- A document with one record, in which one name has an array of eleven letters. -/
def letters : String :=
  "\x7b\"r\":[\x7b\"a\":" ++
    "[\"a\",\"b\",\"c\",\"d\",\"e\",\"f\",\"g\",\"h\",\"i\",\"j\",\"k\"]\x7d]\x7d"

def letterItems : List Value :=
  ["a", "b", "c", "d", "e", "f", "g", "h", "i", "j", "k"].map Value.string

def letterElement : Value := .object [("a", .array letterItems)]

def letterRoot : Value := .object [("r", .array [letterElement])]

/-- The record of the letters. -/
def letterRecord : Store :=
  ⟨[("a", ["a", "b", "k", "c", "d", "e", "f", "g", "h", "i", "j"])]⟩

theorem read_letters : Value.read letters = .ok letterRoot := by with_unfolding_all rfl

theorem slashless_array {items : List Value} (h : ∀ item ∈ items, item.Everywhere SlashlessNames) :
    (Value.array items).Everywhere SlashlessNames :=
  everywhere_array (fun _ hname => absurd hname List.not_mem_nil) h

theorem slashless_object {name : String} {child : Value} (hname : Slashless name)
    (hchild : child.Everywhere SlashlessNames) :
    (Value.object [(name, child)]).Everywhere SlashlessNames := by
  refine everywhere_iff.2 ⟨fun other h => ?_, fun other found h => ?_⟩
  · rw [List.mem_singleton.1 h]
    exact hname
  · cases List.mem_singleton.1 h
    exact hchild

theorem slashless_letterRoot : letterRoot.Everywhere SlashlessNames := by
  have hitems : (Value.array letterItems).Everywhere SlashlessNames := by
    refine slashless_array fun item hitem => ?_
    obtain ⟨text, -, rfl⟩ := List.mem_map.1 hitem
    exact everywhere_of_children_eq_nil (fun _ hname => absurd hname List.not_mem_nil) rfl
  refine slashless_object (by decide +kernel) (slashless_array fun element helement => ?_)
  rw [List.mem_singleton.1 helement]
  exact slashless_object (by decide +kernel) hitems

theorem extract_letters : (Json.extract letters ["r"] 1).records[0]? = some letterRecord := by
  decide +kernel

theorem leads_letterElement : letterElement.Leads ["a"] (.array letterItems) :=
  .into List.mem_cons_self (.here _)

/-- The eleventh letter has the index 10, and stands behind the one with index 1. -/
theorem get_array_letters :
    letterRecord.get "a" = (byIndexText letterItems).filterMap (·.2.leafText?) :=
  (get_array read_letters slashless_letterRoot rfl rfl extract_letters (List.cons_ne_nil "a" [])
    leads_letterElement).1

/-- **The order of a longer array is lost.** -/
theorem get_array_unordered :
    ¬ ∀ (document : String) (path p : List String) (maxRecords n : Nat) (root element : Value)
        (elements items : List Value) (record : Store),
      Value.read document = .ok root → root.Everywhere SlashlessNames →
      root.at? path = some (.array elements) → elements[n]? = some element →
      (Json.extract document path maxRecords).records[n]? = some record →
      p ≠ [] → element.Leads p (.array items) →
      record.get ("/".intercalate p) = items.filterMap leafText? := by
  intro h
  have hletters := h letters ["r"] ["a"] 1 0 letterRoot letterElement [letterElement] letterItems
    letterRecord read_letters slashless_letterRoot rfl rfl extract_letters (List.cons_ne_nil "a" [])
    leads_letterElement
  revert hletters
  decide

end Value

end Extractor.Json
