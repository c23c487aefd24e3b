import Extractor.Proofs.Code.Indentation
/-!
# The depth of a line, by counting

As long as a line that closes a block has one to close, the depth of each line can be counted: it is
the number of blocks that are open, and one more for each guard that waits for its statement
(`indent_counted`). Starting one deeper then puts every line one deeper.
-/

namespace Extractor.Layout

/-- A guard above such a line still waits for its statement. -/
def leavesWaiting (line : List Char) : Bool := isOpenGuard line || isComment line || line.isEmpty

/-- The guards in the longest run of guards, comments and blank lines at the end. -/
def waitingGuards (before : List (List Char)) : Nat :=
  (before.rtakeWhile leavesWaiting).countP isOpenGuard

/-- Every block that a line closes has been opened by a line before it, or lies around them all. -/
def ClosesOpened (base : Nat) (lines : List (List Char)) : Prop :=
  ∀ i < lines.length,
    (lines.take (i + 1)).countP closesBlock ≤ base + (lines.take i).countP opensBlock

def countedDepth (base : Nat) (lines : List (List Char)) (i : Nat) : Nat :=
  base + (lines.take i).countP opensBlock - (lines.take (i + 1)).countP closesBlock +
    waitingGuards (lines.take i)

/-- Each line at its counted depth. -/
def countedRows (base : Nat) (lines : List (List Char)) : List (Nat × List Char) :=
  lines.mapIdx fun i line => (countedDepth base lines i, line)

instance (base : Nat) (lines : List (List Char)) : Decidable (ClosesOpened base lines) :=
  inferInstanceAs (Decidable (∀ i < lines.length,
    (lines.take (i + 1)).countP closesBlock ≤ base + (lines.take i).countP opensBlock))

section

variable {base i : Nat} {s : State} {line : List Char} {before lines : List (List Char)}

/-! ## One line more -/

theorem countP_concat (p : List Char → Bool) (before : List (List Char)) (line : List Char) :
    (before ++ [line]).countP p = before.countP p + (p line).toNat := by
  rw [List.countP_append, List.countP_singleton]
  cases p line <;> rfl

theorem waitingGuards_concat (h : leavesWaiting line = true) :
    waitingGuards (before ++ [line]) = waitingGuards before + (isOpenGuard line).toNat := by
  unfold waitingGuards
  rw [List.rtakeWhile_concat_pos _ _ _ h, countP_concat]

theorem waitingGuards_concat_of_statement (h : leavesWaiting line = false) :
    waitingGuards (before ++ [line]) = 0 := by
  unfold waitingGuards
  rw [List.rtakeWhile_concat_neg _ _ _ (by simp [h]), List.countP_nil]

/-- A guard adds to what is owed, and so to the depth. Other lines that may stand between a guard
and its statement leave both alone. -/
theorem next_of_leavesWaiting (s : State) (h : leavesWaiting line = true) :
    s.next line = ⟨s.depthOf line + (isOpenGuard line).toNat, s.owed + (isOpenGuard line).toNat,
      opensBlock line⟩ := by
  unfold State.next
  cases hguard : isOpenGuard line with
  | true => simp
  | false =>
    have hskip : (decide (s.owed > 0) && !line.isEmpty && !isComment line) = false := by
      simp only [leavesWaiting, hguard, Bool.false_or, Bool.or_eq_true] at h
      rcases h with h | h <;> simp [h]
    simp only [Bool.false_eq_true, if_false, hskip]
    rfl

/-- A statement ends what is owed. -/
theorem next_of_statement (s : State) (h : leavesWaiting line = false) :
    s.next line = ⟨s.depthOf line - s.owed, 0, opensBlock line⟩ := by
  simp only [leavesWaiting, Bool.or_eq_false_iff] at h
  obtain ⟨⟨hguard, hcomment⟩, hempty⟩ := h
  unfold State.next
  rw [hguard, hcomment, hempty]
  cases hzero : s.owed <;> simp

/-! ## What a state counts -/

/-- What the state knows of the lines before is what can be counted in them. -/
structure Counts (base : Nat) (before : List (List Char)) (s : State) : Prop where
  owed : s.owed = waitingGuards before
  depth : s.depth + s.opened.toNat + before.countP closesBlock =
    base + before.countP opensBlock + s.owed

theorem counts_nil (base : Nat) : Counts base [] (State.ofDepth base) := ⟨rfl, rfl⟩

/-- The line that closes an open block is not at depth zero, so nothing is cut off. -/
theorem Counts.depthOf (h : Counts base before s)
    (hline : (before ++ [line]).countP closesBlock ≤ base + before.countP opensBlock) :
    s.depthOf line + (before ++ [line]).countP closesBlock =
      base + before.countP opensBlock + s.owed := by
  have hdepth := h.depth
  have hcloses : s.depthOf line = s.depth + s.opened.toNat - (closesBlock line).toNat := by
    unfold State.depthOf
    cases s.opened <;> cases closesBlock line <;> rfl
  rw [countP_concat] at hline ⊢
  omega

theorem Counts.next (h : Counts base before s)
    (hline : (before ++ [line]).countP closesBlock ≤ base + before.countP opensBlock) :
    Counts base (before ++ [line]) (s.next line) := by
  have hdepth := h.depthOf hline
  have howed := h.owed
  have hopens := countP_concat opensBlock before line
  cases hwaits : leavesWaiting line with
  | true =>
    rw [next_of_leavesWaiting s hwaits]
    refine ⟨?_, ?_⟩
    · rw [waitingGuards_concat hwaits, howed]
    · dsimp only
      omega
  | false =>
    -- What is owed is part of the depth, so it can be given back.
    rw [next_of_statement s hwaits]
    refine ⟨?_, ?_⟩
    · rw [waitingGuards_concat_of_statement hwaits]
    · dsimp only
      omega

/-- **The state behind any of the lines counts them.** -/
theorem counts_take (h : ClosesOpened base lines) (hi : i ≤ lines.length) :
    Counts base (lines.take i) ((lines.take i).foldl State.next (State.ofDepth base)) := by
  induction i with
  | zero => exact counts_nil base
  | succ i ih =>
    have hline := h i hi
    rw [List.take_succ_eq_append_getElem hi] at hline ⊢
    rw [List.foldl_append]
    exact (ih (Nat.le_of_succ_le hi)).next hline

/-! ## All lines -/

theorem indentFrom_eq_mapIdx (unit : Nat) (s : State) (lines : List (List Char)) :
    indentFrom unit s lines = lines.mapIdx fun i line =>
      indentLine unit (((lines.take i).foldl State.next s).depthOf line) line := by
  induction lines generalizing s with
  | nil => rfl
  | cons line lines ih =>
    rw [indentFrom, ih, List.mapIdx_cons]
    rfl

theorem depthOf_take (h : ClosesOpened base lines) (hi : i < lines.length) :
    ((lines.take i).foldl State.next (State.ofDepth base)).depthOf lines[i] =
      countedDepth base lines i := by
  have hcounts := counts_take h (Nat.le_of_lt hi)
  have hline := h i hi
  have howed := hcounts.owed
  unfold countedDepth
  rw [List.take_succ_eq_append_getElem hi] at hline ⊢
  have hdepth := hcounts.depthOf hline
  omega

theorem indentFrom_counted (unit : Nat) (h : ClosesOpened base lines) :
    indentFrom unit (State.ofDepth base) lines =
      (countedRows base lines).map fun row => indentLine unit row.1 row.2 := by
  rw [indentFrom_eq_mapIdx, countedRows]
  refine List.ext_getElem (by simp) fun i hi _ => ?_
  rw [List.length_mapIdx] at hi
  rw [List.getElem_mapIdx, List.getElem_map, List.getElem_mapIdx, depthOf_take h hi]

theorem ClosesOpened.add (h : ClosesOpened base lines) (k : Nat) : ClosesOpened (base + k) lines :=
  fun i hi => (h i hi).trans (by omega)

theorem countedRows_add (h : ClosesOpened base lines) (k : Nat) :
    countedRows (base + k) lines =
      (countedRows base lines).map fun row => (row.1 + k, row.2) := by
  unfold countedRows
  refine List.ext_getElem (by simp) fun i hi _ => ?_
  rw [List.length_mapIdx] at hi
  have hline := h i hi
  rw [List.getElem_mapIdx, List.getElem_map, List.getElem_mapIdx, Prod.mk.injEq]
  unfold countedDepth
  exact ⟨by omega, rfl⟩

end

theorem indent_eq_printed {base : Nat} {lines : List String} (unit : Nat)
    (h : ClosesOpened base (trimmed lines)) :
    indent unit base lines = printed unit (countedRows base (trimmed lines)) := by
  have hrows := indentFrom_counted unit h
  unfold trimmed at hrows
  rw [indent, hrows, printed, List.flatMap_map]
  rfl

/-- **The depth of every line can be counted.** Starting deeper moves every line by as much. -/
theorem indent_counted {base : Nat} {lines : List String} (unit : Nat)
    (h : ClosesOpened base (trimmed lines)) :
    indent unit base lines = printed unit (countedRows base (trimmed lines)) ∧
      ∀ k, indent unit (base + k) lines =
        printed unit ((countedRows base (trimmed lines)).map fun row => (row.1 + k, row.2)) := by
  refine ⟨indent_eq_printed unit h, fun k => ?_⟩
  rw [indent_eq_printed unit (h.add k), countedRows_add h]

/-- A line that closes a block and is a guard, and another guard behind it, with a comment and a
blank line between them. -/
theorem indent_counted_guards :
    let lines := ["if (a) \x7b", "f();", "\x7d else if (b)", "// c", "", "else if (d)", "g();", "h();"]
    ClosesOpened 1 (trimmed lines) ∧
      (indent 2 1 lines = printed 2 (countedRows 1 (trimmed lines)) ∧
        ∀ k, indent 2 (1 + k) lines =
          printed 2 ((countedRows 1 (trimmed lines)).map fun row => (row.1 + k, row.2))) ∧
      (countedRows 1 (trimmed lines)).map (·.1) = [1, 2, 1, 2, 2, 2, 3, 1] := by
  intro lines
  have hcloses : ClosesOpened 1 (trimmed lines) := by decide +kernel
  exact ⟨hcloses, indent_counted 2 hcloses, by decide +kernel⟩

end Extractor.Layout
