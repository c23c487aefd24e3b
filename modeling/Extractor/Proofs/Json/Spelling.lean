import Extractor.Proofs.Json.Order
import Extractor.Specification.Draft
/-!
# How a path spells its indices

A path finds its array by the numbers that its segments stand for, and a record finds its leaves by
the text of the path. Both see the same item where the path writes its index as it is counted
(`mem_children_iff_counts`). So an array whose first item has a leaf inside gives a record if the
path writes all indices like this, and otherwise none (`records_ne_nil_iff`): with `01` for `1` the
array is found, and its records are not (`records_not_found`).
-/

namespace Extractor.Json

namespace Value

/-- The segment says where to go on from the value as the leaves do: from an array, by the numeral
of an index. -/
def Counts (segment : String) : Value → Prop
  | .array _ => ∃ i : Nat, segment = toString i
  | _ => True

/-- Every segment of the path does so, at the value that it is reached with. -/
def Counted : List String → Value → Prop
  | [], _ => True
  | segment :: path, v =>
    v.Counts segment ∧ ∀ child, v.child? segment = some child → child.Counted path

section

variable {v w child : Value} {segment text : String} {path q : List String}

theorem mem_children_iff_counts (h : v.child? segment = some child) :
    (segment, child) ∈ v.children ↔ v.Counts segment := by
  cases v with
  | array items =>
    obtain ⟨i, hi, hitem⟩ := Option.bind_eq_some_iff.1 h
    constructor
    · intro hmem
      obtain ⟨j, -, hj⟩ := mem_indexed.1 hmem
      exact ⟨0 + j, hj⟩
    · rintro ⟨n, rfl⟩
      obtain rfl := eq_of_word?_toString hi
      exact mem_indexed.2 ⟨i, hitem, by rw [Nat.zero_add]⟩
  | object members => exact iff_of_true (mem_of_lookup h) trivial
  | _ => cases h

/-- **A path leads where it finds a value if it spells its indices as they are counted.** -/
theorem leads_iff_counted (hnames : v.Everywhere Ascending) (h : v.at? path = some w) :
    v.Leads path w ↔ v.Counted path := by
  induction path generalizing v with
  | nil =>
    cases h
    exact iff_of_true (.here _) trivial
  | cons segment path ih =>
    obtain ⟨child, hchild, h⟩ := Option.bind_eq_some_iff.1 h
    constructor
    · intro hleads
      obtain _ | ⟨hmem, hleads⟩ := hleads
      obtain rfl := eq_of_child? hnames.here hchild hmem
      refine ⟨(mem_children_iff_counts hchild).1 hmem, fun other hother => ?_⟩
      cases hchild.symm.trans hother
      exact (ih (hnames.child hmem) h).1 hleads
    · rintro ⟨hcounts, hothers⟩
      have hmem := (mem_children_iff_counts hchild).2 hcounts
      exact .into hmem ((ih (hnames.child hmem) h).2 (hothers child hchild))

/-- What a path leads to is a leaf at this path, if it has a text. -/
theorem mem_leaves_of_leads (h : v.Leads q w) (htext : w.leafText? = some text)
    (path : List String) : (path ++ q, text) ∈ v.leaves path := by
  induction h generalizing path with
  | here v =>
    rw [leaves_eq, htext, List.append_nil]
    exact List.mem_append_left _ List.mem_cons_self
  | into hc _ ih =>
    rw [leaves_eq, List.append_cons]
    exact List.mem_append_right _ (List.mem_flatMap.2 ⟨_, hc, ih htext _⟩)

end

section

variable {root element leaf : Value} {path p : List String} {items : List Value} {text : String}

/-- The first item has a leaf, so there is a record if the path leads to its array. -/
theorem records_ne_nil_of_leads {maxRecords : Nat} (hpath : path ≠ []) (hmax : 0 < maxRecords)
    (hat : root.at? path = some (.array items)) (hleads : root.Leads path (.array items))
    (helement : items[0]? = some element) (hp : p ≠ []) (hleaf : element.Leads p leaf)
    (htext : leaf.leafText? = some text) : root.records path maxRecords ≠ [] := by
  have hitem : (toString 0, element) ∈ (Value.array items).children :=
    mem_indexed.2 ⟨0, helement, rfl⟩
  have hroot : root.Leads (path ++ toString 0 :: p) leaf := hleads.append (.into hitem hleaf)
  have hjoined : "/".intercalate (path ++ toString 0 :: p) =
      stem path 0 ++ "/".intercalate p := by
    rw [stem_eq hpath, List.append_cons, String.intercalate_append_of_ne_nil (by simp) hp]
  rw [← List.length_pos_iff, lt_length_records_iff]
  intro m hm
  obtain rfl := Nat.le_zero.1 hm
  obtain ⟨hlength, -⟩ := List.getElem?_eq_some_iff.1 helement
  refine ⟨?_, _, mem_leaves_of_leads hroot htext [], _, hjoined⟩
  rw [countAt, hat]
  exact lt_min hlength hmax

/-- **There are records where the two readings of the path agree.** The path finds an array whose
first item has a leaf inside. Then there is a record if the path spells each index on the way as it
is counted, and otherwise there is none. -/
theorem records_ne_nil_iff {document : String} {maxRecords : Nat}
    (hread : Value.read document = .ok root) (hobject : root.isObject)
    (hslash : root.Everywhere SlashlessNames) (hat : root.at? path = some (.array items))
    (helement : items[0]? = some element) (hp : p ≠ []) (hleaf : element.Leads p leaf)
    (htext : leaf.leafText? = some text) (hmax : 0 < maxRecords) :
    (Json.extract document path maxRecords).records ≠ [] ↔ root.Counted path := by
  have hnames := read_ascending hread
  have hrecords : (Json.extract document path maxRecords).records =
      root.records path maxRecords := by
    rw [Json.extract, hread]
    simp only [Value.extract, hobject, if_true]
  have hpath : path ≠ [] := by
    rintro rfl
    cases hat
    cases hobject
  have hroot : root.leafText? = none := by
    cases root with
    | object members => rfl
    | _ => cases hobject
  rw [hrecords, ← leads_iff_counted hnames hat]
  constructor
  · intro hne
    obtain ⟨record, others, heq⟩ := List.exists_cons_of_ne_nil hne
    have hrecord : (root.records path maxRecords)[0]? = some record := by rw [heq]; rfl
    have hitem := leads_item_of_records hroot hnames hslash hpath hat helement hrecord
    exact leads_of_at? hnames hat hitem
  · intro hleads
    exact records_ne_nil_of_leads hpath hmax hat hleads helement hp hleaf htext

end

/-! ## An index with a zero in front -/

/-- A list of which the second item is a list of records. -/
def numbered : String := "\x7b\"a\":[\"x\",[\x7b\"k\":\"1\"\x7d]]\x7d"

def numberedItem : Value := .object [("k", .string "1")]

def numberedRoot : Value := .object [("a", .array [.string "x", .array [numberedItem]])]

def paddedSource : String := "format: json\nentries: a/01"

def padded : Specification where
  format := .json
  entriesPath := ["a", "01"]
  introduction := none
  fieldRules := []
  valueRules := []
  typeOverrides := []
  entryId := ""
  entryType := ""
  validation := none
  postMapping := none
  postFields := none

theorem read_numbered : Value.read numbered = .ok numberedRoot := by with_unfolding_all rfl

theorem load_padded : Specification.load paddedSource = .ok padded := by decide +kernel

theorem slashless_numberedRoot : numberedRoot.Everywhere SlashlessNames := by
  have htext (text : String) : (Value.string text).Everywhere SlashlessNames :=
    everywhere_of_children_eq_nil (fun _ hname => absurd hname List.not_mem_nil) rfl
  refine slashless_object (by decide +kernel) (slashless_array fun item hitem => ?_)
  rcases List.mem_pair.1 hitem with rfl | rfl
  · exact htext "x"
  · refine slashless_array fun entry hentry => ?_
    rw [List.mem_singleton.1 hentry]
    exact slashless_object (by decide +kernel) (htext "1")

theorem leads_numberedItem : numberedItem.Leads ["k"] (.string "1") :=
  .into List.mem_cons_self (.here _)

/-- Both spellings find the list, and only one of them finds the record in it. -/
theorem records_numbered :
    (numberedRoot.Counted ["a", "1"] ∧ ¬ numberedRoot.Counted ["a", "01"]) ∧
      (Json.extract numbered ["a", "1"] 5).records ≠ [] ∧
      (Json.extract numbered ["a", "01"] 5).records = [] := by
  have hcounted : numberedRoot.Counted ["a", "1"] := by
    refine ⟨trivial, fun child hchild => ?_⟩
    cases hchild
    exact ⟨⟨1, rfl⟩, fun _ _ => trivial⟩
  have hpadded : ¬ numberedRoot.Counted ["a", "01"] := by
    intro h
    obtain ⟨⟨i, hi⟩, -⟩ := h.2 _ rfl
    -- The numeral of the index that `01` stands for is another one.
    have hone : i = 1 := (eq_of_word?_toString (n := i) (by rw [← hi]; rfl)).symm
    rw [hone] at hi
    revert hi
    decide +kernel
  refine ⟨⟨hcounted, hpadded⟩, ?_, ?_⟩
  · exact (records_ne_nil_iff read_numbered rfl slashless_numberedRoot rfl rfl
      (List.cons_ne_nil _ _) leads_numberedItem rfl (Nat.succ_pos 4)).2 hcounted
  · by_contra hne
    exact hpadded ((records_ne_nil_iff read_numbered rfl slashless_numberedRoot rfl rfl
      (List.cons_ne_nil _ _) leads_numberedItem rfl (Nat.succ_pos 4)).1 hne)

/-- **An array that is found need not give its records.** -/
theorem records_not_found :
    ¬ ∀ (source document : String) (spec : Specification) (root element leaf : Value)
        (items : List Value) (p : List String) (text : String) (maxRecords : Nat),
      Specification.load source = .ok spec → Value.read document = .ok root → root.isObject →
      root.Everywhere SlashlessNames → root.at? spec.entriesPath = some (.array items) →
      items[0]? = some element → p ≠ [] → element.Leads p leaf → leaf.leafText? = some text →
      0 < maxRecords → (Json.extract document spec.entriesPath maxRecords).records ≠ [] := by
  intro h
  refine h paddedSource numbered padded numberedRoot numberedItem (.string "1") [numberedItem] ["k"]
    "1" 5 load_padded read_numbered rfl slashless_numberedRoot rfl rfl (List.cons_ne_nil _ _)
    leads_numberedItem rfl (Nat.succ_pos 4) ?_
  decide +kernel

end Value

end Extractor.Json
