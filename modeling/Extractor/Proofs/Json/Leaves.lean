import Extractor.Json.Extract
import Extractor.Proofs.Store
import Mathlib.Data.List.Perm.Basic
/-!
# The leaves of a document

`Value.leaves` enumerates the leaves of a value by recursion on it. A breadth-first search with a
queue takes the values of a document one by one, each once, and ends with the queue empty
(`Search.iterate_step`). It finds the leaves in the order of their levels, which is another order
of the same leaves (`Node.leaves_perm`). Where only some leaves are looked for, the nodes without
such a leaf below them can be left out (`Node.filter_leaves_congr`).
-/

namespace Extractor.Json

open scoped List

namespace Value

mutual

/-- The leaves of a value, each with its text and the path to it, which starts with the given
one. -/
def leaves (path : List String) : Value → List (List String × String)
  | .null => []
  | .bool true => [(path, "true")]
  | .bool false => [(path, "false")]
  | .number bits => [(path, Decimal.text bits)]
  | .string text => [(path, text)]
  | .array items => itemLeaves path 0 items
  | .object members => memberLeaves path members

def itemLeaves (path : List String) (index : Nat) : List Value → List (List String × String)
  | [] => []
  | item :: rest => item.leaves (path ++ [toString index]) ++ itemLeaves path (index + 1) rest

def memberLeaves (path : List String) : List (String × Value) → List (List String × String)
  | [] => []
  | (name, value) :: rest => value.leaves (path ++ [name]) ++ memberLeaves path rest

end

theorem memberLeaves_eq (path : List String) (members : List (String × Value)) :
    memberLeaves path members = members.flatMap fun (name, value) => value.leaves (path ++ [name]) := by
  induction members with
  | nil => rfl
  | cons first rest ih =>
    obtain ⟨name, value⟩ := first
    rw [memberLeaves, ih, List.flatMap_cons]

theorem itemLeaves_eq (path : List String) (index : Nat) (items : List Value) :
    itemLeaves path index items = memberLeaves path (indexed index items) := by
  induction items generalizing index with
  | nil => rfl
  | cons item rest ih => rw [itemLeaves, ih, indexed, memberLeaves]

/-- A value is a leaf or has the leaves of its children. -/
theorem leaves_eq (path : List String) (v : Value) :
    v.leaves path = (v.leafText?.map (path, ·)).toList ++
      v.children.flatMap fun (name, child) => child.leaves (path ++ [name]) := by
  cases v with
  | bool value => cases value <;> rfl
  | array items => rw [leaves, itemLeaves_eq, memberLeaves_eq]; rfl
  | object members => rw [leaves, memberLeaves_eq]; rfl
  | null | number _ | string _ => rfl

end Value

/-- A leaf with its path as one text. -/
def joined (leaf : List String × String) : String × String := ("/".intercalate leaf.1, leaf.2)

namespace Node

/-- The leaves below a node, under their joined paths. -/
def allLeaves (n : Node) : List (String × String) := (n.value.leaves n.path).map joined

theorem allLeaves_eq (n : Node) : n.allLeaves = n.leaf?.toList ++ n.children.flatMap allLeaves := by
  obtain ⟨path, v⟩ := n
  have hleaf : ((v.leafText?.map (path, ·)).toList).map joined = (leaf? ⟨path, v⟩).toList := by
    simp only [leaf?]
    cases v.leafText? <;> rfl
  rw [allLeaves, Value.leaves_eq, List.map_append, hleaf, List.map_flatMap, children,
    List.flatMap_map]
  rfl

theorem filterMap_leaf? (nodes : List Node) :
    nodes.filterMap leaf? = nodes.flatMap fun n => n.leaf?.toList := by
  induction nodes with
  | nil => rfl
  | cons n rest ih =>
    rw [List.filterMap_cons, List.flatMap_cons, ← ih]
    cases n.leaf? <;> rfl

/-- **Level by level, the leaves are found in another order.** -/
theorem leaves_perm (level : List Node) : leaves level ~ level.flatMap allLeaves := by
  induction level using leaves.induct with
  | case1 => rw [leaves]; rfl
  | case2 n rest ih =>
    rw [leaves, filterMap_leaf?]
    calc (n :: rest).flatMap (fun n => n.leaf?.toList) ++ leaves ((n :: rest).flatMap children)
        ~ (n :: rest).flatMap (fun n => n.leaf?.toList) ++
            ((n :: rest).flatMap children).flatMap allLeaves := ih.append_left _
      _ = (n :: rest).flatMap (fun n => n.leaf?.toList) ++
            (n :: rest).flatMap (fun n => n.children.flatMap allLeaves) := by
          rw [List.flatMap_assoc]
      _ ~ (n :: rest).flatMap fun n => n.leaf?.toList ++ n.children.flatMap allLeaves :=
          List.flatMap_append_perm _ _ _
      _ = (n :: rest).flatMap allLeaves := by
          simp only [← allLeaves_eq]

/-! ## The queue -/

theorem leaves_nil : leaves [] = [] := by rw [leaves]

theorem leaves_eq (level : List Node) :
    leaves level = level.filterMap leaf? ++ leaves (level.flatMap children) := by
  cases level with
  | nil => rw [List.flatMap_nil, leaves_nil]; rfl
  | cons n rest => rw [leaves]

/-- Some nodes may be taken before the others, if their children go behind these. -/
theorem leaves_append (nodes others : List Node) :
    leaves (nodes ++ others) =
      nodes.filterMap leaf? ++ leaves (others ++ nodes.flatMap children) := by
  -- Both sides list the level and go on with its children, where the claim holds by induction.
  induction h : totalWeight (nodes ++ others) using Nat.strong_induction_on
    generalizing nodes others with
  | _ weight ih =>
    by_cases hnil : nodes ++ others = []
    · obtain ⟨rfl, rfl⟩ := List.append_eq_nil_iff.1 hnil
      rfl
    · have hless : totalWeight (nodes.flatMap children ++ others.flatMap children) < weight := by
        have := totalWeight_flatMap_children (nodes ++ others)
        have := List.length_pos_iff.2 hnil
        rw [← List.flatMap_append]
        omega
      rw [leaves_eq (nodes ++ others), List.filterMap_append, List.flatMap_append,
        ih _ hless _ _ rfl, leaves_eq (others ++ nodes.flatMap children), List.filterMap_append,
        List.flatMap_append]
      simp only [List.append_assoc]

theorem leaves_cons (n : Node) (queue : List Node) :
    leaves (n :: queue) = n.leaf?.toList ++ leaves (queue ++ n.children) := by
  have h := leaves_append [n] queue
  rw [List.singleton_append, List.flatMap_singleton] at h
  rw [h, List.filterMap_cons]
  cases n.leaf? <;> rfl

/-! ## Leaves that are looked for -/

theorem any_of_children_any {keep : String × String → Bool} {n child : Node}
    (hc : child ∈ n.children) (h : child.allLeaves.any keep) : n.allLeaves.any keep := by
  rw [allLeaves_eq, List.any_append, List.any_flatMap, Bool.or_eq_true]
  exact Or.inr (List.any_eq_true.2 ⟨child, hc, h⟩)

theorem filter_children_of_not_any {keep : String × String → Bool} {n : Node}
    (h : n.allLeaves.any keep = false) :
    n.children.filter (fun child => child.allLeaves.any keep) = [] := by
  rw [List.filter_eq_nil_iff]
  intro child hc hany
  exact Bool.false_ne_true (h.symm.trans (any_of_children_any hc hany))

theorem filter_leaf?_of_not_any {keep : String × String → Bool} {n : Node}
    (h : n.allLeaves.any keep = false) : n.leaf?.toList.filter keep = [] := by
  rw [allLeaves_eq, List.any_append, Bool.or_eq_false_iff, List.any_eq_false] at h
  exact List.filter_eq_nil_iff.2 h.1

theorem flatMap_filter_any {α : Type} {keep : String × String → Bool} {f : Node → List α}
    (hf : ∀ n : Node, n.allLeaves.any keep = false → f n = []) (level : List Node) :
    (level.filter fun n => n.allLeaves.any keep).flatMap f = level.flatMap f := by
  induction level with
  | nil => rfl
  | cons n rest ih =>
    rw [List.filter_cons, List.flatMap_cons]
    cases h : n.allLeaves.any keep with
    | false => simp [hf n h, ih]
    | true => simp [ih]

/-- **Nodes that no leaf looked for lies below do not matter.** Two levels with the same nodes
besides these give the same leaves, in the same order. -/
theorem filter_leaves_congr {keep : String × String → Bool} {level other : List Node}
    (h : (level.filter fun n => n.allLeaves.any keep) =
      other.filter fun n => n.allLeaves.any keep) :
    (leaves level).filter keep = (leaves other).filter keep := by
  -- The levels below agree in the same way, and there are fewer values in them.
  induction hweight : totalWeight level + totalWeight other using Nat.strong_induction_on
    generalizing level other with
  | _ weight ih =>
    have hflat : ∀ {α : Type} (f : Node → List α),
        (∀ n : Node, n.allLeaves.any keep = false → f n = []) →
          level.flatMap f = other.flatMap f := by
      intro α f hf
      rw [← flatMap_filter_any hf level, h, flatMap_filter_any hf other]
    by_cases hnil : level = [] ∧ other = []
    · rw [hnil.1, hnil.2]
    · have hpos : 0 < level.length + other.length := by
        rw [← List.length_append]
        exact List.length_pos_iff.2 fun h => hnil (List.append_eq_nil_iff.1 h)
      have hlevel := totalWeight_flatMap_children level
      have hother := totalWeight_flatMap_children other
      have hchildren : (level.flatMap children).filter (fun n => n.allLeaves.any keep) =
          (other.flatMap children).filter fun n => n.allLeaves.any keep := by
        rw [List.filter_flatMap, List.filter_flatMap]
        exact hflat _ fun n => filter_children_of_not_any
      have hbelow := ih _ (by omega) hchildren rfl
      rw [leaves_eq level, leaves_eq other, List.filter_append, List.filter_append, hbelow,
        filterMap_leaf?, filterMap_leaf?, List.filter_flatMap, List.filter_flatMap,
        hflat _ fun n => filter_leaf?_of_not_any]

end Node

/-- A breadth-first search: the nodes to come, and the leaves found so far. -/
structure Search where
  queue : List Node
  found : Store

namespace Search

/-- Takes the first node of the queue; its leaf is kept, or its children go to the end. -/
def step : Search → Search
  | ⟨[], found⟩ => ⟨[], found⟩
  | ⟨n :: queue, found⟩ => ⟨queue ++ n.children, found.appendPairs n.leaf?.toList⟩

def start (root : Value) : Search := ⟨[⟨[], root⟩], Store.empty⟩

/-- **The search ends.** It takes as many steps as there are values in the queue and inside. -/
theorem iterate_step (queue : List Node) (found : Store) :
    step^[Node.totalWeight queue] ⟨queue, found⟩ =
      ⟨[], found.appendPairs (Node.leaves queue)⟩ := by
  induction h : Node.totalWeight queue generalizing queue found with
  | zero =>
    cases queue with
    | nil => rw [Node.leaves_nil]; rfl
    | cons n queue =>
      have := Node.totalWeight_children n
      simp only [Node.totalWeight] at h
      omega
  | succ weight ih =>
    cases queue with
    | nil => simp [Node.totalWeight] at h
    | cons n queue =>
      have hweight : Node.totalWeight (queue ++ n.children) = weight := by
        have := Node.totalWeight_children n
        rw [Node.totalWeight_append]
        simp only [Node.totalWeight] at h
        omega
      rw [Function.iterate_succ_apply, step, ih _ _ hweight, Node.leaves_cons,
        Store.appendPairs_append]

theorem iterate_step_start (root : Value) : step^[root.weight] (start root) = ⟨[], root.gather⟩ := by
  have h := iterate_step [⟨[], root⟩] Store.empty
  rw [Node.totalWeight, Node.totalWeight, Nat.add_zero] at h
  exact h

end Search

/-- What is gathered from a document are its leaves. -/
theorem Value.pairs_gather_perm (root : Value) : root.gather.pairs ~ (root.leaves []).map joined := by
  have h := Node.leaves_perm [⟨[], root⟩]
  rw [List.flatMap_singleton] at h
  exact (Store.pairs_ofList_perm _).trans h

end Extractor.Json
