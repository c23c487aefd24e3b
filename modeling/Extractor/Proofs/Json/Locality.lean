import Extractor.Proofs.Json.Paths
/-!
# What the records depend on

A record is cut out of the leaves of the whole document by the start of their joined paths. Where
no object on the way to the array has a slash in a name, a leaf with such a path is a leaf of the
array (`leads_of_under`). The search for these leaves can start at the array
(`filter_leaves_of_leads`), and so two documents with the same array have the same records
(`extract_congr`). A name with a slash can bring other leaves into a record (`records_not_local`).
-/

namespace Extractor.Json

open scoped List

namespace Value

/-! ## A record takes only what lies below its stem -/

/-- The path lies below the stem. -/
def under (start path : String) : Bool := start.toList.isPrefixOf path.toList

theorem under_iff {start path : String} : under start path ↔ ∃ rest, path = start ++ rest := by
  rw [under, List.isPrefixOf_iff_prefix]
  constructor
  · rintro ⟨rest, h⟩
    exact ⟨String.ofList rest, by rw [← String.toList_inj, String.toList_append,
      String.toList_ofList, h]⟩
  · rintro ⟨rest, rfl⟩
    rw [String.toList_append]
    exact List.prefix_append _ _

theorem taken?_eq_none {start : String} {entry : String × String}
    (h : under start entry.1 = false) : taken? start entry = none := by
  have hprefix : start.toList.isPrefixOf? entry.1.toList = none := by
    rw [Text.isPrefixOf?_eq_none_iff, ← List.isPrefixOf_iff_prefix]
    exact Bool.eq_false_iff.1 h
  rw [taken?, hprefix, Option.map_none]

theorem cut_restrict (gathered : Store) (start : String) :
    cut (gathered.restrict (under start)) start = cut gathered start := by
  rw [cut_eq, cut_eq, Store.pairs_restrict]
  generalize gathered.pairs = entries
  congr 1
  induction entries with
  | nil => rfl
  | cons entry rest ih =>
    rw [List.filter_cons, List.filterMap_cons]
    cases h : under start entry.1 with
    | false => rw [taken?_eq_none h, ← ih]; rfl
    | true => rw [if_pos rfl, List.filterMap_cons, ih]

theorem cut_gather (root : Value) (start : String) :
    cut root.gather start = cut (Store.ofList
      ((Node.leaves [⟨[], root⟩]).filter fun entry => under start entry.1)) start := by
  rw [← cut_restrict, gather, Store.restrict_ofList]

/-! ## What lies below it -/

/-- The path finds a value, and no object that it passes has a slash in a name. -/
structure Reaches (v : Value) (path : List String) (w : Value) : Prop where
  names : v.Everywhere Ascending
  way : v.Along SlashlessNames path
  found : v.at? path = some w

section

variable {v w : Value} {base path : List String} {n : Nat} {leaf : List String × String}

theorem Reaches.slashless (h : v.Reaches path w) : ∀ segment ∈ path, Slashless segment :=
  slashless_of_along h.way h.found

theorem Reaches.child {segment : String} (h : v.Reaches (segment :: path) w) :
    ∃ child, v.child? segment = some child ∧ child.Reaches path w := by
  obtain ⟨child, hchild, hfound⟩ := Option.bind_eq_some_iff.1 h.found
  obtain ⟨name, hname⟩ := exists_mem_children_of_child? hchild
  exact ⟨child, hchild, h.names.child hname, h.way.2 child hchild, hfound⟩

/-- What follows the stem counts as one more segment, with all slashes in it. -/
theorem under_stem_iff {text : String} (hpath : path ≠ []) :
    under (stem path n) text ↔ ∃ rest, text = "/".intercalate (path ++ [toString n, rest]) := by
  have hjoin : ∀ rest, "/".intercalate (path ++ [toString n, rest]) = stem path n ++ rest := by
    intro rest
    rw [stem_eq hpath, List.append_cons, String.intercalate_append_of_ne_nil (by simp) (by simp),
      String.intercalate_singleton]
  simp only [under_iff, hjoin]

/-- Below the stem, the path of a leaf goes on with the same segment as that of the array. -/
theorem eq_segment_of_under {child : Value} {name segment : String}
    (hpath : ∀ other ∈ base ++ segment :: path, Slashless other) (hname : Slashless name)
    (hleaf : leaf ∈ child.leaves (base ++ [name]))
    (hunder : under (stem (base ++ segment :: path) n) (joined leaf).1) : name = segment := by
  obtain ⟨hbase, hrest⟩ := List.forall_mem_append.1 hpath
  have hsegment := (List.forall_mem_cons.1 hrest).1
  obtain ⟨rest, htext⟩ := (under_stem_iff (by simp)).1 hunder
  obtain ⟨below, hbelow⟩ := prefix_of_mem_leaves hleaf
  have hfound : (base ++ [name]).map String.toList <+: (joined leaf).1.toList.splitOn '/' := by
    rw [joined, ← hbelow]
    exact prefix_splitOn_intercalate (by simp)
      (List.forall_mem_append.2 ⟨hbase, by simpa using hname⟩) below
  have hstem : (base ++ [segment]).map String.toList <+:
      (joined leaf).1.toList.splitOn '/' := by
    have hcons : base ++ segment :: path ++ [toString n, rest] =
        (base ++ [segment]) ++ (path ++ [toString n, rest]) := by simp
    rw [htext, hcons]
    exact prefix_splitOn_intercalate (by simp)
      (List.forall_mem_append.2 ⟨hbase, by simpa using hsegment⟩) _
  have heq : (base ++ [name]).map String.toList = (base ++ [segment]).map String.toList :=
    (List.prefix_of_prefix_length_le hfound hstem (by simp)).eq_of_length (by simp)
  exact List.singleton_inj.1 (List.append_cancel_left (map_toList_injective heq))

/-- **A leaf below the stem is a leaf of the array**: the path leads on to where it is. -/
theorem leads_of_under (hv : v.Reaches path w) (hbase : ∀ segment ∈ base, Slashless segment)
    (hleaf : leaf ∈ v.leaves base) (hunder : under (stem (base ++ path) n) (joined leaf).1) :
    v.Leads path w := by
  induction path generalizing v base with
  | nil =>
    cases hv.found
    exact .here _
  | cons segment path ih =>
    have hpath : ∀ other ∈ base ++ segment :: path, Slashless other :=
      List.forall_mem_append.2 ⟨hbase, hv.slashless⟩
    obtain ⟨child, hchild, hreaches⟩ := hv.child
    obtain ⟨found, hfound⟩ := exists_mem_children_of_child? hchild
    rw [leaves_eq, leafText?_eq_none_of_child hfound, Option.map_none, Option.toList_none,
      List.nil_append] at hleaf
    obtain ⟨⟨name, inside⟩, hmem, hleaf⟩ := List.mem_flatMap.1 hleaf
    obtain rfl := eq_segment_of_under hpath (slashless_of_mem_children hv.way.1 hmem) hleaf hunder
    obtain rfl := eq_of_child? hv.names.here hchild hmem
    rw [List.append_cons] at hpath hunder
    exact .into hmem (ih hreaches (List.forall_mem_append.1 hpath).1 hleaf hunder)

/-- **The search for them may start at the array.** -/
theorem filter_leaves_of_leads (hv : v.Reaches path w) (hleads : v.Leads path w)
    (hbase : ∀ segment ∈ base, Slashless segment) (n : Nat) :
    (Node.leaves [⟨base, v⟩]).filter (fun entry => under (stem (base ++ path) n) entry.1) =
      (Node.leaves [⟨base ++ path, w⟩]).filter
        fun entry => under (stem (base ++ path) n) entry.1 := by
  induction path generalizing v base with
  | nil =>
    cases hv.found
    rw [List.append_nil]
  | cons segment path ih =>
    have hpath : ∀ other ∈ base ++ segment :: path, Slashless other :=
      List.forall_mem_append.2 ⟨hbase, hv.slashless⟩
    obtain ⟨child, hchild, hreaches⟩ := hv.child
    obtain _ | ⟨hmem, hleads⟩ := hleads
    obtain rfl := eq_of_child? hv.names.here hchild hmem
    -- No leaf that is looked for lies below another child than the one on the way.
    have hothers : ((Node.children ⟨base, v⟩).filter fun m =>
          m.allLeaves.any fun entry => under (stem (base ++ segment :: path) n) entry.1) =
        [⟨base ++ [segment], child⟩].filter fun m =>
          m.allLeaves.any fun entry => under (stem (base ++ segment :: path) n) entry.1 := by
      rw [Node.children, List.map_eq_flatMap, List.filter_flatMap]
      refine flatMap_eq_of_nodup hv.names.here.nodup_children hmem fun entry hentry hne => ?_
      refine List.filter_eq_nil_iff.2 fun m hm hany => ?_
      obtain rfl := List.mem_singleton.1 hm
      obtain ⟨found, hfound, hunder⟩ := List.any_eq_true.1 hany
      obtain ⟨leaf, hleaf, rfl⟩ := List.mem_map.1 hfound
      have hname := slashless_of_mem_children hv.way.1 hentry
      exact hne (eq_segment_of_under hpath hname hleaf hunder)
    have hleaf : Node.leaf? ⟨base, v⟩ = none := by
      rw [Node.leaf?, leafText?_eq_none_of_child hmem, Option.map_none]
    rw [Node.leaves_cons, hleaf, Option.toList_none, List.nil_append, List.nil_append,
      Node.filter_leaves_congr hothers]
    rw [List.append_cons] at hpath ⊢
    exact ih hreaches hleads (List.forall_mem_append.1 hpath).1

end

/-! ## Documents with the same array -/

section

variable {a b root w : Value} {path : List String} {items : List Value}

/-- Where the path leads nowhere, a record finds nothing. -/
theorem filter_leaves_of_not_leads (hroot : root.Reaches path w) (hleads : ¬ root.Leads path w)
    (n : Nat) :
    (Node.leaves [⟨[], root⟩]).filter (fun entry => under (stem path n) entry.1) = [] := by
  refine List.filter_eq_nil_iff.2 fun entry hentry hunder => hleads ?_
  have hmem := (Node.leaves_perm [⟨[], root⟩]).mem_iff.1 hentry
  rw [List.flatMap_singleton] at hmem
  obtain ⟨leaf, hleaf, rfl⟩ := List.mem_map.1 hmem
  exact leads_of_under hroot (fun _ h => absurd h List.not_mem_nil) hleaf hunder

/-- What the records are cut from is the same in both documents. -/
theorem filter_leaves_eq (ha : a.Reaches path w) (hb : b.Reaches path w)
    (hleads : a.Leads path w ↔ b.Leads path w) (n : Nat) :
    (Node.leaves [⟨[], a⟩]).filter (fun entry => under (stem path n) entry.1) =
      (Node.leaves [⟨[], b⟩]).filter fun entry => under (stem path n) entry.1 := by
  have hnil : ∀ segment ∈ ([] : List String), Slashless segment :=
    fun _ h => absurd h List.not_mem_nil
  by_cases h : a.Leads path w
  · have hfirst := filter_leaves_of_leads ha h hnil n
    have hsecond := filter_leaves_of_leads hb (hleads.1 h) hnil n
    simp only [List.nil_append] at hfirst hsecond
    rw [hfirst, hsecond]
  · rw [filter_leaves_of_not_leads ha h, filter_leaves_of_not_leads hb fun h' => h (hleads.2 h')]

/-- **The records depend on the array only.** In two documents that have the same array at a path,
and no slash in the names of the objects on the way to it, whatever else there is does not matter.
The path has to lead there by the indices of items as they are counted, in both or in neither. -/
theorem extract_congr {first second : String} (maxRecords : Nat)
    (hread : Value.read first = .ok a) (hread' : Value.read second = .ok b)
    (hobject : a.isObject) (hobject' : b.isObject)
    (hat : a.at? path = some (.array items)) (hat' : b.at? path = some (.array items))
    (hway : a.Along SlashlessNames path) (hway' : b.Along SlashlessNames path)
    (hleads : a.Leads path (.array items) ↔ b.Leads path (.array items)) :
    Json.extract first path maxRecords = Json.extract second path maxRecords := by
  have hcut : ∀ n, cut a.gather (stem path n) = cut b.gather (stem path n) := by
    intro n
    rw [cut_gather, cut_gather, filter_leaves_eq ⟨read_ascending hread, hway, hat⟩
      ⟨read_ascending hread', hway', hat'⟩ hleads n]
  have hcount : a.countAt path = b.countAt path := by
    rw [countAt, countAt, hat, hat']
  have hrecords : a.records path maxRecords = b.records path maxRecords := by
    simp only [records_eq, hcut, hcount]
  rw [Json.extract, Json.extract, hread, hread']
  simp only [Value.extract, hobject, hobject', hrecords]

end

/-! ## Other members -/

def loneItem : Value := .object [("a", .string "1")]

/-- A document with one record and nothing else. -/
def lone : String := "\x7b\"r\":[\x7b\"a\":\"1\"\x7d]\x7d"

def loneRoot : Value := .object [("r", .array [loneItem])]

/-- The same record between other members, in one of which there is a slash. -/
def accompanied : String :=
  "\x7b\"n\":\x7b\"r/0\":\"2\"\x7d,\"r\":[\x7b\"a\":\"1\"\x7d],\"s\":[\x7b\"a\":\"3\"\x7d]\x7d"

def accompaniedRoot : Value :=
  .object [("n", .object [("r/0", .string "2")]), ("r", .array [loneItem]),
    ("s", .array [.object [("a", .string "3")]])]

/-- The same record beside a member whose own name goes on like the path of the first item. -/
def crossed : String :=
  "\x7b\"r\":[\x7b\"a\":\"1\"\x7d],\"r/0\":\x7b\"b\":\"2\"\x7d\x7d"

def crossedRoot : Value :=
  .object [("r", .array [loneItem]), ("r/0", .object [("b", .string "2")])]

theorem read_lone : Value.read lone = .ok loneRoot := by with_unfolding_all rfl

theorem read_accompanied : Value.read accompanied = .ok accompaniedRoot := by
  with_unfolding_all rfl

theorem read_crossed : Value.read crossed = .ok crossedRoot := by with_unfolding_all rfl

/-- Other members make no difference. -/
theorem extract_accompanied : Json.extract lone ["r"] 5 = Json.extract accompanied ["r"] 5 := by
  have hway : ∀ {members : List (String × Value)}, (∀ name ∈ members.map (·.1), Slashless name) →
      (Value.object members).Along SlashlessNames ["r"] := fun h => ⟨h, fun _ _ => trivial⟩
  refine extract_congr 5 read_lone read_accompanied rfl rfl rfl rfl (hway ?_) (hway ?_)
    (iff_of_true (.into List.mem_cons_self (.here _))
      (.into (List.mem_cons_of_mem _ List.mem_cons_self) (.here _)))
  · decide +kernel
  · decide +kernel

/-- **A member with a slash in its name can add to a record.** -/
theorem records_not_local :
    ¬ ∀ (first second : String) (a b : Value) (path : List String) (items : List Value)
        (maxRecords : Nat),
      Value.read first = .ok a → Value.read second = .ok b → a.isObject → b.isObject →
      a.at? path = some (.array items) → b.at? path = some (.array items) →
      (Json.extract first path maxRecords).records =
        (Json.extract second path maxRecords).records := by
  intro h
  have hcrossed := h lone crossed loneRoot crossedRoot ["r"] [loneItem] 1 read_lone read_crossed rfl
    rfl rfl rfl
  revert hcrossed
  decide +kernel

end Value

end Extractor.Json
