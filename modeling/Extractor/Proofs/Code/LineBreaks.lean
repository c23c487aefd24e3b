import Extractor.Proofs.Code.Guard
import Extractor.Proofs.Code.Reindentation
import Mathlib.Data.List.Forall2

/-!
# Lines without breaks

Code and guards may be given on several lines: they are cut at their breaks, or joined. Heads,
conditions and comments become lines as they are, so statements are laid out as lines without breaks
if none of these has one (`unbroken_of_mem_linesOf`). Of such lines indentation makes one row each,
with a margin of whole units (`rows_indent`).
-/

namespace Extractor

namespace Text

/-- The text is on one line. -/
def Unbroken (text : String) : Prop := '\n' ∉ text.toList

instance (text : String) : Decidable (Unbroken text) :=
  inferInstanceAs (Decidable ('\n' ∉ text.toList))

theorem Unbroken.append {s t : String} (hs : Unbroken s) (ht : Unbroken t) : Unbroken (s ++ t) := by
  rw [Unbroken, String.toList_append, List.mem_append, not_or]
  exact ⟨hs, ht⟩

/-- A text between two others. -/
theorem Unbroken.insert {front text back : String} (hends : Unbroken front ∧ Unbroken back)
    (h : Unbroken text) : Unbroken (front ++ text ++ back) := (hends.1.append h).append hends.2

end Text

namespace Stmt

open Text

mutual

/-- The texts that become lines as they are have no breaks. -/
def unbroken : Stmt → Bool
  | .block head body => Unbroken head && allUnbroken body
  | .choice arms otherwise =>
    armsUnbroken arms &&
      (match otherwise with
        | none => true
        | some body => allUnbroken body)
  | .comment text => Unbroken text
  | .code _ | .guarded _ _ | .blank => true

def allUnbroken : List Stmt → Bool
  | [] => true
  | stmt :: rest => stmt.unbroken && allUnbroken rest

def armsUnbroken : List (String × List Stmt) → Bool
  | [] => true
  | (condition, body) :: rest => Unbroken condition && allUnbroken body && armsUnbroken rest

end

section

variable {text head condition line : String} {stmt : Stmt}
  {stmts rest body otherwise : List Stmt}

theorem unbroken_of_mem_codeLines (h : line ∈ codeLines text) : Unbroken line := by
  obtain ⟨piece, hpiece, rfl⟩ := List.mem_map.1 h
  obtain ⟨chars, hchars, rfl⟩ := List.mem_map.1 hpiece
  rw [Unbroken, toList_trim, String.toList_ofList]
  exact not_mem_trimChars (not_mem_of_mem_splitOn hchars)

theorem unbroken_armHead (isFirst : Bool) (h : Unbroken condition) :
    Unbroken (armHead isFirst condition) := by
  cases isFirst <;> exact .insert (by decide) h

/-! ## Lines of trees -/

mutual

theorem unbroken_of_mem_lines (stmt : Stmt) (h : stmt.unbroken) :
    ∀ line ∈ stmt.lines, Unbroken line := by
  cases stmt with
  | code text => exact fun _ => unbroken_of_mem_codeLines
  | block head body =>
    rw [unbroken, Bool.and_eq_true_iff, decide_eq_true_iff] at h
    rw [lines, List.cons_append, List.forall_mem_cons, List.forall_mem_append]
    exact ⟨h.1.append (by decide), unbroken_of_mem_linesOf body h.2, by decide⟩
  | choice arms otherwise =>
    rw [unbroken.eq_def, Bool.and_eq_true_iff] at h
    rw [lines.eq_def, List.forall_mem_append, List.forall_mem_append]
    refine ⟨⟨unbroken_of_mem_armLines arms true h.1, ?_⟩, by decide⟩
    cases otherwise with
    | none => exact List.forall_mem_nil _
    | some body => exact List.forall_mem_cons.2 ⟨by decide, unbroken_of_mem_linesOf body h.2⟩
  | guarded guard statement =>
    rw [lines, List.forall_mem_cons]
    exact ⟨not_mem_oneLine guard, fun _ => unbroken_of_mem_codeLines⟩
  | comment text =>
    rw [unbroken, decide_eq_true_iff] at h
    rw [lines, List.forall_mem_singleton]
    exact Unbroken.append (by decide) h
  | blank => decide

theorem unbroken_of_mem_linesOf (stmts : List Stmt) (h : allUnbroken stmts) :
    ∀ line ∈ linesOf stmts, Unbroken line := by
  cases stmts with
  | nil => exact List.forall_mem_nil _
  | cons stmt rest =>
    rw [allUnbroken, Bool.and_eq_true_iff] at h
    rw [linesOf, List.forall_mem_append]
    exact ⟨unbroken_of_mem_lines stmt h.1, unbroken_of_mem_linesOf rest h.2⟩

theorem unbroken_of_mem_armLines (arms : List (String × List Stmt)) (isFirst : Bool)
    (h : armsUnbroken arms) : ∀ line ∈ armLines isFirst arms, Unbroken line := by
  cases arms with
  | nil => exact List.forall_mem_nil _
  | cons arm rest =>
    obtain ⟨condition, body⟩ := arm
    rw [armsUnbroken, Bool.and_eq_true_iff, Bool.and_eq_true_iff, decide_eq_true_iff] at h
    obtain ⟨⟨hcondition, hbody⟩, hrest⟩ := h
    rw [armLines, List.cons_append, List.forall_mem_cons, List.forall_mem_append]
    exact ⟨unbroken_armHead isFirst hcondition, unbroken_of_mem_linesOf body hbody,
      unbroken_of_mem_armLines rest false hrest⟩

end

/-! ## Making statements from texts -/

theorem unbroken_block (hhead : Unbroken head) (h : allUnbroken body) :
    (Stmt.block head body).unbroken := by
  rw [unbroken, Bool.and_eq_true_iff, decide_eq_true_iff]
  exact ⟨hhead, h⟩

theorem unbroken_ifThen (hcondition : Unbroken condition) (h : allUnbroken body) :
    (Stmt.ifThen condition body).unbroken := by
  simp [Stmt.ifThen, unbroken, armsUnbroken, hcondition, h]

theorem unbroken_ifElse (hcondition : Unbroken condition) (h : allUnbroken body)
    (hotherwise : allUnbroken otherwise) : (Stmt.ifElse condition body otherwise).unbroken := by
  simp [Stmt.ifElse, unbroken, armsUnbroken, hcondition, h, hotherwise]

theorem allUnbroken_cons_iff : allUnbroken (stmt :: rest) ↔ stmt.unbroken ∧ allUnbroken rest := by
  rw [allUnbroken, Bool.and_eq_true_iff]

theorem allUnbroken_cons (h : stmt.unbroken) (hrest : allUnbroken rest) :
    allUnbroken (stmt :: rest) :=
  allUnbroken_cons_iff.2 ⟨h, hrest⟩

theorem allUnbroken_iff : allUnbroken stmts ↔ ∀ stmt ∈ stmts, stmt.unbroken := by
  induction stmts with
  | nil => exact iff_of_true rfl (List.forall_mem_nil _)
  | cons stmt stmts ih => rw [allUnbroken_cons_iff, ih, List.forall_mem_cons]

theorem allUnbroken_append_iff :
    allUnbroken (stmts ++ rest) ↔ allUnbroken stmts ∧ allUnbroken rest := by
  simp only [allUnbroken_iff, List.forall_mem_append]

end

end Stmt

namespace Layout

open Text

/-- An empty row, or one with a margin of whole units before a text that white space neither starts
nor ends. -/
def Margined (unit : Nat) (row : String) : Prop :=
  row = "" ∨ ∃ (depth : Nat) (text : List Char),
    row.toList = List.replicate (depth * unit) ' ' ++ text ∧ text ≠ [] ∧
      text.head?.any isBlank = false ∧ text.getLast?.any isBlank = false

theorem margined_indentLine (unit depth : Nat) (line : String) :
    Margined unit (String.ofList (indentLine unit depth (trimChars line.toList))) := by
  unfold indentLine
  by_cases hempty : trimChars line.toList = []
  · rw [hempty]
    exact .inl rfl
  · refine .inr ⟨depth, trimChars line.toList, ?_, hempty, head?_dropBlankEnd_dropWhile _,
      getLast?_dropBlankEnd _⟩
    rw [if_neg (by simpa using hempty), String.toList_ofList]

theorem margined_indentFrom (unit : Nat) (s : State) (lines : List String) :
    ∀ row ∈ (indentFrom unit s (trimmed lines)).map String.ofList, Margined unit row := by
  induction lines generalizing s with
  | nil => exact List.forall_mem_nil _
  | cons line lines ih => exact List.forall_mem_cons.2 ⟨margined_indentLine unit _ line, ih _⟩

/-- Each line becomes one row with a margin. -/
theorem rows_indent (unit depth : Nat) {lines : List String} (h : ∀ line ∈ lines, Unbroken line) :
    let rows := physicalLines (indent unit depth lines)
    indent unit depth lines = unlines rows ∧ rows.length = lines.length ∧
      ∀ row ∈ rows, Margined unit row := by
  have hmoved := forall₂_moved unit (State.ofDepth depth) h
  rw [indent_eq_unlines, physicalLines_unlines_of_moved hmoved]
  exact ⟨rfl, hmoved.length_eq.symm, margined_indentFrom unit _ lines⟩

end Layout

end Extractor
