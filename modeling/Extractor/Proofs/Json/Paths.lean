import Extractor.Proofs.Json.Names
import Extractor.Proofs.Json.Records
/-!
# The leaves at a joined path

Segments without slashes can be told apart in a joined path (`intercalate_inj`). So where no name
of a document has a slash, a leaf that a record takes over lies where its path says: the leaves at
the path of an array in the item of a record are the leaves among its items
(`filter_below_leaves`).
-/

namespace Extractor.Json

open scoped List

/-! ## Joined paths -/

/-- The text stands for one segment of a path. -/
def Slashless (segment : String) : Prop := '/' ∉ segment.toList

instance (segment : String) : Decidable (Slashless segment) :=
  inferInstanceAs (Decidable ('/' ∉ segment.toList))

theorem isDigit_of_mem_toString {n : Nat} {c : Char} (h : c ∈ (toString n).toList) :
    c.isDigit = true := by
  rw [Nat.toString_eq_repr, Nat.toList_repr] at h
  exact Nat.isDigit_of_mem_toDigits (by decide) (by decide) h

theorem slashless_toString (n : Nat) : Slashless (toString n) := fun h =>
  absurd (isDigit_of_mem_toString h) (by decide)

theorem map_toList_injective : Function.Injective (List.map String.toList) :=
  List.map_injective_iff.2 fun _ _ => String.toList_inj.1

theorem splitOn_append_slash (text rest : String) :
    (text ++ "/" ++ rest).toList.splitOn '/' =
      text.toList.splitOn '/' ++ rest.toList.splitOn '/' := by
  have hslash : (text ++ "/" ++ rest).toList = text.toList ++ '/' :: rest.toList := by simp
  rw [hslash]
  exact List.splitOnP_append_cons _ _ (beq_self_eq_true '/')

section

variable {path other : List String}

/-- The segments can be read back from a joined path. -/
theorem splitOn_intercalate (hne : path ≠ []) (h : ∀ segment ∈ path, Slashless segment) :
    ("/".intercalate path).toList.splitOn '/' = path.map String.toList := by
  rw [String.toList_intercalate]
  refine List.splitOn_intercalate '/' (fun segment hsegment => ?_) (by simpa using hne)
  obtain ⟨segment, hmem, rfl⟩ := List.mem_map.1 hsegment
  exact h segment hmem

theorem intercalate_inj (hpath : path ≠ []) (hother : other ≠ [])
    (h : ∀ segment ∈ path, Slashless segment) (h' : ∀ segment ∈ other, Slashless segment)
    (heq : "/".intercalate path = "/".intercalate other) : path = other := by
  have hsplit := splitOn_intercalate hpath h
  rw [heq, splitOn_intercalate hother h'] at hsplit
  exact map_toList_injective hsplit.symm

/-- A joined path, cut at its slashes, has the slashless segments that it starts with in front,
whatever is in the others. -/
theorem prefix_splitOn_intercalate {front : List String} (hfront : front ≠ [])
    (h : ∀ segment ∈ front, Slashless segment) (rest : List String) :
    front.map String.toList <+: ("/".intercalate (front ++ rest)).toList.splitOn '/' := by
  by_cases hrest : rest = []
  · rw [hrest, List.append_nil, splitOn_intercalate hfront h]
  · rw [String.intercalate_append_of_ne_nil hfront hrest, splitOn_append_slash,
      splitOn_intercalate hfront h]
    exact List.prefix_append _ _

/-- A path whose text begins with the segments of another one begins with them itself. -/
theorem exists_append_of_intercalate {rest : String} (hpath : path ≠ []) (hother : other ≠ [])
    (h : ∀ segment ∈ path, Slashless segment) (h' : ∀ segment ∈ other, Slashless segment)
    (heq : "/".intercalate other = "/".intercalate path ++ "/" ++ rest) :
    ∃ q, q ≠ [] ∧ other = path ++ q ∧ rest = "/".intercalate q := by
  have hsplit := splitOn_append_slash ("/".intercalate path) rest
  rw [← heq, splitOn_intercalate hother h', splitOn_intercalate hpath h] at hsplit
  obtain ⟨front, q, rfl, hfront, hq⟩ := List.map_eq_append_iff.1 hsplit
  obtain rfl := map_toList_injective hfront
  refine ⟨q, ?_, rfl, ?_⟩
  · rintro rfl
    exact List.splitOnP_ne_nil _ _ hq.symm
  · rw [← String.toList_inj, String.toList_intercalate, hq]
    exact (List.intercalate_splitOn '/').symm

end

namespace Value

/-! ## Leaves and what leads to them -/

section

variable {v w : Value} {path : List String} {leaf : List String × String}

theorem leafText?_eq_none_of_child {name : String} {child : Value}
    (h : (name, child) ∈ v.children) : v.leafText? = none := by
  cases v with
  | array _ | object _ => rfl
  | _ => exact absurd h List.not_mem_nil

theorem weight_lt_of_child {name : String} {child : Value} (h : (name, child) ∈ v.children) :
    child.weight < v.weight := by
  rw [weight_eq v]
  generalize v.children = members at h
  induction members with
  | nil => exact absurd h List.not_mem_nil
  | cons first rest ih =>
    rw [membersWeight]
    rcases List.mem_cons.1 h with rfl | h
    · exact Nat.lt_succ_of_le (Nat.le_add_right _ _)
    · have := ih h
      omega

/-- A leaf is what a path to a text, a number or a truth value leads to. -/
theorem exists_leads_of_mem_leaves (h : leaf ∈ v.leaves path) :
    ∃ q w, v.Leads q w ∧ w.leafText? = some leaf.2 ∧ leaf.1 = path ++ q := by
  induction hweight : v.weight using Nat.strong_induction_on generalizing v path with
  | _ weight ih =>
    rw [leaves_eq, List.mem_append] at h
    rcases h with h | h
    · rw [Option.mem_toList, Option.map_eq_some_iff] at h
      obtain ⟨text, htext, rfl⟩ := h
      exact ⟨[], v, .here v, htext, (List.append_nil path).symm⟩
    · obtain ⟨⟨name, child⟩, hchild, h⟩ := List.mem_flatMap.1 h
      obtain ⟨q, w, hw, htext, hq⟩ :=
        ih child.weight (hweight ▸ weight_lt_of_child hchild) h rfl
      exact ⟨name :: q, w, .into hchild hw, htext, by rw [hq, List.append_assoc]; rfl⟩

theorem prefix_of_mem_leaves (h : leaf ∈ v.leaves path) : path <+: leaf.1 := by
  obtain ⟨q, -, -, -, hq⟩ := exists_leads_of_mem_leaves h
  exact ⟨q, hq.symm⟩

/-- At the path of a value itself there is its own text, if it is a leaf. -/
theorem filter_self_leaves (v : Value) (path : List String) :
    (v.leaves path).filter (fun leaf => leaf.1 = path) = (v.leafText?.map (path, ·)).toList := by
  rw [leaves_eq, List.filter_append]
  have hself : (v.leafText?.map (path, ·)).toList.filter (fun leaf => leaf.1 = path) =
      (v.leafText?.map (path, ·)).toList := by
    cases v.leafText? <;> simp
  have hinside : (v.children.flatMap fun entry => entry.2.leaves (path ++ [entry.1])).filter
      (fun leaf => leaf.1 = path) = [] := by
    rw [List.filter_eq_nil_iff]
    intro leaf hleaf heq
    obtain ⟨⟨name, child⟩, -, hleaf⟩ := List.mem_flatMap.1 hleaf
    have hlength := (prefix_of_mem_leaves hleaf).length_le
    rw [of_decide_eq_true heq, List.length_append] at hlength
    exact Nat.not_succ_le_self _ hlength
  rw [hself, hinside, List.append_nil]

/-- Among the entries of an object or array, only one has a given name. -/
theorem flatMap_eq_of_nodup {α : Type} {entries : List (String × Value)} {name : String}
    {child : Value} {f : String × Value → List α} (hnodup : (entries.map (·.1)).Nodup)
    (hmem : (name, child) ∈ entries) (hf : ∀ entry ∈ entries, entry.1 ≠ name → f entry = []) :
    entries.flatMap f = f (name, child) := by
  induction entries with
  | nil => exact absurd hmem List.not_mem_nil
  | cons first rest ih =>
    obtain ⟨hfirst, hnodup⟩ := List.nodup_cons.1 hnodup
    rw [List.flatMap_cons]
    rcases List.mem_cons.1 hmem with rfl | hmem
    · have hrest : rest.flatMap f = [] := by
        refine List.flatMap_eq_nil_iff.2 fun entry he => ?_
        refine hf entry (List.mem_cons_of_mem _ he) fun heq => hfirst ?_
        exact List.mem_map.2 ⟨entry, he, heq⟩
      rw [hrest, List.append_nil]
    · have hne : first.1 ≠ name := by
        intro heq
        exact hfirst (List.mem_map.2 ⟨_, hmem, heq.symm⟩)
      rw [hf first List.mem_cons_self hne, List.nil_append,
        ih hnodup hmem fun entry he => hf entry (List.mem_cons_of_mem _ he)]

/-- The leaves under a path are those of the value that it leads to. -/
theorem filter_prefix_leaves (hnames : v.Everywhere Ascending) {q : List String}
    (hq : v.Leads q w) (path : List String) :
    (v.leaves path).filter (fun leaf => path ++ q <+: leaf.1) = w.leaves (path ++ q) := by
  induction hq generalizing path with
  | here v =>
    rw [List.append_nil, List.filter_eq_self]
    exact fun leaf h => decide_eq_true (prefix_of_mem_leaves h)
  | @into v child w name q hc _ ih =>
    have hothers : ∀ entry ∈ v.children, entry.1 ≠ name →
        (entry.2.leaves (path ++ [entry.1])).filter (fun leaf => path ++ name :: q <+: leaf.1) =
          [] := by
      intro entry _ hne
      rw [List.filter_eq_nil_iff]
      intro leaf hleaf hstart
      have hentry := prefix_of_mem_leaves hleaf
      have hname : path ++ [name] <+: leaf.1 :=
        List.IsPrefix.trans ⟨q, (List.append_cons path name q).symm⟩ (of_decide_eq_true hstart)
      have heq : path ++ [entry.1] = path ++ [name] :=
        (List.prefix_of_prefix_length_le hentry hname (by simp)).eq_of_length (by simp)
      exact hne (List.cons.inj (List.append_cancel_left heq)).1
    rw [leaves_eq, leafText?_eq_none_of_child hc, Option.map_none, Option.toList_none,
      List.nil_append, List.filter_flatMap,
      flatMap_eq_of_nodup hnames.here.nodup_children hc hothers, List.append_cons]
    exact ih (hnames.child hc) (path ++ [name])

end

/-! ## The item of a record -/

section

variable {root v w : Value} {name : String} {path : List String}

theorem mem_of_lookup {members : List (String × Value)} (h : members.lookup name = some v) :
    (name, v) ∈ members := by
  obtain ⟨front, back, rfl, -⟩ := List.lookup_eq_some_iff.1 h
  exact List.mem_append_right _ List.mem_cons_self

theorem isPrefixOf?_plus_toString (n : Nat) : ['+'].isPrefixOf? (toString n).toList = none := by
  rw [Text.isPrefixOf?_eq_none_iff]
  rintro ⟨rest, h⟩
  have hplus : '+' ∈ (toString n).toList := h ▸ List.mem_cons_self
  exact absurd (isDigit_of_mem_toString hplus) (by decide)

/-- A numeral is read as the number that it was written for. -/
theorem eq_of_word?_toString {n i : Nat} (h : Text.word? (toString n) = some i) : i = n := by
  unfold Text.word? at h
  rw [isPrefixOf?_plus_toString, Option.getD_none] at h
  dsimp only at h
  split at h
  · cases h
  · obtain ⟨h, -⟩ := Option.filter_eq_some_iff.1 h
    have hdigits : (toString n).toList.foldl (fun m c => m * 10 + Text.digitValue c) 0 =
        Nat.ofDigitChars 10 (toString n).toList 0 := by
      simp only [Nat.mul_comm _ 10]
      rfl
    rw [Option.some.injEq, hdigits, Nat.toString_eq_repr, Nat.toList_repr,
      Nat.ofDigitChars_ten_toDigits] at h
    exact h.symm

theorem slashless_of_word? {n : Nat} (h : Text.word? name = some n) : Slashless name := by
  unfold Text.word? at h
  dsimp only at h
  split at h
  · cases h
  next hdigits =>
  rw [Bool.or_eq_true, not_or, Bool.not_eq_true', Bool.not_eq_false, List.all_eq_true] at hdigits
  intro hslash
  have hmem : '/' ∈ (['+'].isPrefixOf? name.toList).getD name.toList := by
    cases hp : ['+'].isPrefixOf? name.toList with
    | none => exact hslash
    | some rest =>
      rw [Text.isPrefixOf?_eq_some_iff.1 hp] at hslash
      rcases List.mem_cons.1 hslash with h | h
      · exact absurd h (by decide)
      · exact h
  exact absurd (hdigits.2 _ hmem) (by decide)

/-- A segment that is the name of a child leads to this child. -/
theorem eq_of_child? {child : Value} (hnames : v.Ascending) (h : v.child? name = some w)
    (hc : (name, child) ∈ v.children) : w = child := by
  cases v with
  | array items =>
    obtain ⟨i, hi, hitem⟩ := Option.bind_eq_some_iff.1 h
    obtain ⟨j, hj, rfl⟩ := mem_indexed.1 hc
    rw [eq_of_word?_toString hi, Nat.zero_add, hj] at hitem
    exact (Option.some.inj hitem).symm
  | object members => exact hnames.child_unique (mem_of_lookup h) hc
  | _ => cases h

theorem exists_mem_children_of_child? (h : v.child? name = some w) :
    ∃ found, (found, w) ∈ v.children := by
  cases v with
  | array items =>
    obtain ⟨i, -, hitem⟩ := Option.bind_eq_some_iff.1 h
    exact ⟨_, mem_indexed.2 ⟨i, hitem, rfl⟩⟩
  | object members => exact ⟨name, mem_of_lookup h⟩
  | _ => cases h

/-- No name in an object has a slash. -/
def SlashlessNames (v : Value) : Prop := ∀ name ∈ v.names, Slashless name

theorem slashless_of_child? (hslash : v.SlashlessNames) (h : v.child? name = some w) :
    Slashless name := by
  cases v with
  | array items =>
    obtain ⟨i, hi, -⟩ := Option.bind_eq_some_iff.1 h
    exact slashless_of_word? hi
  | object members => exact hslash name (List.mem_map.2 ⟨_, mem_of_lookup h, rfl⟩)
  | _ => cases h

theorem slashless_of_mem_children (hslash : v.SlashlessNames) (h : (name, w) ∈ v.children) :
    Slashless name := by
  cases v with
  | array items =>
    obtain ⟨i, -, rfl⟩ := mem_indexed.1 h
    exact slashless_toString _
  | object members => exact hslash name (List.mem_map.2 ⟨_, h, rfl⟩)
  | _ => exact absurd h List.not_mem_nil

theorem Leads.slashless (hslash : v.Everywhere SlashlessNames) (h : v.Leads path w) :
    ∀ segment ∈ path, Slashless segment := by
  induction h with
  | here => exact fun _ h => absurd h List.not_mem_nil
  | into hc _ ih =>
    exact List.forall_mem_cons.2 ⟨slashless_of_mem_children hslash.here hc, ih (hslash.child hc)⟩

theorem Everywhere.along {P : Value → Prop} (h : v.Everywhere P) (path : List String) :
    v.Along P path := by
  induction path generalizing v with
  | nil => trivial
  | cons segment path ih =>
    refine ⟨h.here, fun child hchild => ?_⟩
    obtain ⟨found, hfound⟩ := exists_mem_children_of_child? hchild
    exact ih (h.child hfound)

theorem slashless_of_along (hslash : v.Along SlashlessNames path) (h : v.at? path = some w) :
    ∀ segment ∈ path, Slashless segment := by
  induction path generalizing v with
  | nil => exact fun _ h => absurd h List.not_mem_nil
  | cons segment path ih =>
    obtain ⟨child, hchild, h⟩ := Option.bind_eq_some_iff.1 h
    exact List.forall_mem_cons.2
      ⟨slashless_of_child? hslash.1 hchild, ih (hslash.2 child hchild) h⟩

/-- A path may name an item of an array by another numeral than its index. It does not where it
leads on to a value. -/
theorem leads_of_at? {rest : List String} {u : Value} (hnames : v.Everywhere Ascending)
    (h : v.at? path = some w) (hu : v.Leads (path ++ rest) u) : v.Leads path w := by
  induction path generalizing v with
  | nil =>
    cases h
    exact .here _
  | cons segment path ih =>
    obtain ⟨child, hchild, h⟩ := Option.bind_eq_some_iff.1 h
    obtain _ | ⟨hc, hu⟩ := hu
    obtain rfl := eq_of_child? hnames.here hchild hc
    exact .into hc (ih (hnames.child hc) h hu)

end

/-! ## The leaves that a record has at the path of an array -/

section

variable {root : Value} {path p : List String} {n : Nat} {items : List Value}

theorem stem_eq (hpath : path ≠ []) (n : Nat) :
    stem path n = "/".intercalate (path ++ [toString n]) ++ "/" := by
  rw [String.intercalate_append_of_ne_nil hpath (List.cons_ne_nil _ _),
    String.intercalate_singleton, stem]

/-- Of a slashless path the text says whether a record takes its leaf over, and to which key. -/
theorem below_iff_eq_append {q : List String} (hpath : path ≠ []) (hp : p ≠ []) (hq : q ≠ [])
    (hslash : ∀ segment ∈ path ++ toString n :: p, Slashless segment)
    (hslash' : ∀ segment ∈ q, Slashless segment) (hne : q ≠ path ++ toString n :: p) :
    Below (stem path n) ("/".intercalate q) ("/".intercalate p) ↔
      ∃ i : Nat, q = path ++ toString n :: p ++ [toString i] := by
  rw [List.append_cons] at hslash hne ⊢
  have hitem : path ++ [toString n] ≠ [] := by simp
  have hsegments := List.forall_mem_append.1 hslash
  have hextended : ∀ i : Nat, ∀ segment ∈ p ++ [toString i], Slashless segment := fun i =>
    List.forall_mem_append.2 ⟨hsegments.2, by simpa using slashless_toString i⟩
  rw [stem_eq hpath]
  constructor
  · rintro ⟨rest, heq, hkey⟩
    obtain ⟨q', hq', rfl, rfl⟩ :=
      exists_append_of_intercalate hitem hq hsegments.1 hslash' heq
    have hslash'' := (List.forall_mem_append.1 hslash').2
    rcases hkey with ⟨i, hi⟩ | ⟨heq, -⟩
    · rw [← String.intercalate_singleton (s := "/") (t := toString i),
        ← String.intercalate_append_of_ne_nil hp (List.cons_ne_nil _ _)] at hi
      refine ⟨i, ?_⟩
      rw [intercalate_inj hq' (by simp) hslash'' (hextended i) hi, ← List.append_assoc]
    · exact absurd (congrArg _ (intercalate_inj hq' hp hslash'' hsegments.2 heq)) hne
  · rintro ⟨i, rfl⟩
    refine ⟨"/".intercalate (p ++ [toString i]), ?_, Or.inl ⟨i, ?_⟩⟩
    · rw [← String.intercalate_append_of_ne_nil hitem (by simp), List.append_assoc]
    · rw [String.intercalate_append_of_ne_nil hp (List.cons_ne_nil _ _),
        String.intercalate_singleton]

theorem ne_of_mem_leaves {leaf : List String × String} {q : List String} {u : Value}
    (hnames : root.Everywhere Ascending) (hleaf : leaf ∈ root.leaves []) (hu : root.Leads q u)
    (hnone : u.leafText? = none) : leaf.1 ≠ q := by
  obtain ⟨q', w, hw, htext, hq⟩ := exists_leads_of_mem_leaves hleaf
  rw [hq, List.nil_append]
  rintro rfl
  rw [hw.unique hnames hu, hnone] at htext
  exact Option.some_ne_none _ htext.symm

theorem below_iff_of_mem_leaves {leaf : List String × String} (hnames : root.Everywhere Ascending)
    (hslash : root.Everywhere SlashlessNames) (hpath : path ≠ []) (hp : p ≠ [])
    (harray : root.Leads (path ++ toString n :: p) (.array items)) (hleaf : leaf ∈ root.leaves []) :
    Below (stem path n) (joined leaf).1 ("/".intercalate p) ↔
      ∃ i : Nat, leaf.1 = path ++ toString n :: p ++ [toString i] := by
  have hroot : root.leafText? = none := by
    generalize hq : path ++ toString n :: p = q at harray
    obtain _ | ⟨hc, -⟩ := harray
    · rfl
    · exact leafText?_eq_none_of_child hc
  obtain ⟨q, w, hw, -, hq⟩ := exists_leads_of_mem_leaves hleaf
  rw [List.nil_append] at hq
  refine below_iff_eq_append hpath hp ?_ (harray.slashless hslash) ?_ ?_
  · exact ne_of_mem_leaves hnames hleaf (.here root) hroot
  · exact hq ▸ hw.slashless hslash
  · exact ne_of_mem_leaves hnames hleaf harray rfl

/-- The leaves among some entries at a path, without those inside the entries. -/
def leavesAmong (path : List String) (entries : List (String × Value)) :
    List (List String × String) :=
  entries.filterMap fun (name, value) => value.leafText?.map (path ++ [name], ·)

/-- **A record finds the leaves of an array where the array is.** Of all leaves of the document,
those that it takes over to the key of the array are the leaves among the items. -/
theorem filter_below_leaves (hnames : root.Everywhere Ascending)
    (hslash : root.Everywhere SlashlessNames) (hpath : path ≠ []) (hp : p ≠ [])
    (harray : root.Leads (path ++ toString n :: p) (.array items)) :
    (root.leaves []).filter
        (fun leaf => Below (stem path n) (joined leaf).1 ("/".intercalate p)) =
      leavesAmong (path ++ toString n :: p) (indexed 0 items) := by
  have hbelow : ∀ leaf ∈ root.leaves [],
      Below (stem path n) (joined leaf).1 ("/".intercalate p) ↔
        ∃ i : Nat, leaf.1 = path ++ toString n :: p ++ [toString i] :=
    fun leaf hleaf => below_iff_of_mem_leaves hnames hslash hpath hp harray hleaf
  generalize path ++ toString n :: p = q at harray hbelow ⊢
  have hstart := filter_prefix_leaves hnames harray []
  rw [List.nil_append] at hstart
  have hitem : ∀ entry ∈ indexed 0 items,
      (entry.2.leaves (q ++ [entry.1])).filter
          (fun leaf => Below (stem path n) (joined leaf).1 ("/".intercalate p)) =
        (entry.2.leafText?.map (q ++ [entry.1], ·)).toList := by
    rintro ⟨name, item⟩ hentry
    rw [← filter_self_leaves]
    refine List.filter_congr fun leaf hleaf => decide_eq_decide.2 ?_
    have hroot : leaf ∈ root.leaves [] := by
      have hsub := filter_prefix_leaves hnames (harray.append (.into hentry (.here item))) []
      exact (List.mem_filter.1 (hsub ▸ hleaf)).1
    rw [hbelow leaf hroot]
    obtain ⟨index, -, rfl⟩ := mem_indexed.1 hentry
    constructor
    · rintro ⟨i, hi⟩
      exact ((prefix_of_mem_leaves hleaf).eq_of_length (by simp [hi])).symm
    · exact fun h => ⟨_, h⟩
  calc (root.leaves []).filter
        (fun leaf => Below (stem path n) (joined leaf).1 ("/".intercalate p))
      = ((root.leaves []).filter (fun leaf => q <+: leaf.1)).filter
          (fun leaf => Below (stem path n) (joined leaf).1 ("/".intercalate p)) := by
        rw [List.filter_filter]
        refine List.filter_congr fun leaf hleaf => ?_
        by_cases h : Below (stem path n) (joined leaf).1 ("/".intercalate p)
        · obtain ⟨i, hi⟩ := (hbelow leaf hleaf).1 h
          simp [h, hi]
        · simp [h]
    _ = ((Value.array items).leaves q).filter
          (fun leaf => Below (stem path n) (joined leaf).1 ("/".intercalate p)) := by
        rw [hstart]
    _ = (indexed 0 items).flatMap fun entry =>
          (entry.2.leafText?.map (q ++ [entry.1], ·)).toList := by
        rw [leaves_eq, List.filter_append, List.filter_flatMap]
        exact List.flatMap_congr hitem
    _ = leavesAmong q (indexed 0 items) := (List.filterMap_eq_flatMap_toList _ _).symm

/-- A record stands for the item that the path and its number lead to. -/
theorem leads_item_of_records {maxRecords : Nat} {elements : List Value} {element : Value}
    {record : Store} (hroot : root.leafText? = none) (hnames : root.Everywhere Ascending)
    (hslash : root.Everywhere SlashlessNames) (hpath : path ≠ [])
    (hat : root.at? path = some (.array elements)) (helement : elements[n]? = some element)
    (hrecord : (root.records path maxRecords)[n]? = some record) :
    root.Leads (path ++ [toString n]) element := by
  obtain ⟨hn, -⟩ := List.getElem?_eq_some_iff.1 hrecord
  obtain ⟨-, leaf, hleaf, rest, hrest⟩ :=
    (lt_length_records_iff root path maxRecords n).1 hn n (Nat.le_refl n)
  obtain ⟨q, w, hw, -, hq⟩ := exists_leads_of_mem_leaves hleaf
  rw [List.nil_append] at hq
  have hsegments : ∀ segment ∈ path ++ [toString n], Slashless segment :=
    List.forall_mem_append.2
      ⟨slashless_of_along (hslash.along path) hat, by simpa using slashless_toString n⟩
  rw [stem_eq hpath] at hrest
  -- Some leaf lies below the item, so the path names it by its own index.
  obtain ⟨below, -, hbelow, -⟩ := exists_append_of_intercalate (by simp)
    (ne_of_mem_leaves hnames hleaf (.here root) hroot) hsegments
    (hq ▸ hw.slashless hslash) hrest
  rw [← hq, hbelow, List.append_assoc] at hw
  exact (leads_of_at? hnames hat hw).append
    (.into (mem_indexed.2 ⟨n, helement, by rw [Nat.zero_add]⟩) (.here element))

end

end Value

end Extractor.Json
