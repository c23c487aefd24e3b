import Extractor.Proofs.Code.Guard
import Extractor.Proofs.Text.Braces
import Extractor.Proofs.Text.Lines
/-!
# Statements that close what they open

Cutting code into lines, joining the lines of a guard and indenting move no brace
(`balanced_indent`), and the braces that a statement is laid out with are closed where it ends. So
statements are balanced when they are laid out if their texts are (`balanced_linesOf`).
-/

namespace Extractor

namespace Text

variable {c : Char}

theorem isBlank_of_isBrace (h : isBrace c = true) : isBlank c = false := by
  rcases Bool.or_eq_true_iff.1 h with h | h <;> rw [of_decide_eq_true h] <;> decide

/-- White space around a line is no brace. -/
theorem filter_trimChars (line : List Char) :
    (trimChars line).filter isBrace = line.filter isBrace := by
  have hbrace {c : Char} (hc : isBlank c = true) : ¬ isBrace c = true := fun h => by
    simp [isBlank_of_isBrace h] at hc
  refine apply_trimChars (·.filter isBrace) (fun c s hc => ?_) (fun c s hc => ?_) line
  · exact List.filter_cons_of_neg (hbrace hc)
  · simp [hbrace hc]

/-- Breaks between lines are no braces either. -/
theorem flatMap_filter_splitOn (text : List Char) :
    (text.splitOn '\n').flatMap (·.filter isBrace) = text.filter isBrace := by
  have h := congrArg (List.filter isBrace) (flatMap_splitOn '\n' text)
  have hbreak : [('\n' : Char)].filter isBrace = [] := by decide
  simpa only [List.filter_flatMap, List.filter_append, hbreak, List.append_nil] using h

theorem filter_join (lines : List String) :
    (String.join lines).toList.filter isBrace = lines.flatMap (·.toList.filter isBrace) := by
  induction lines with
  | nil => rfl
  | cons line lines ih =>
    rw [String.join_cons, String.toList_append, List.filter_append, ih, List.flatMap_cons]

end Text

namespace Layout

open Text

theorem filter_indentLine (unit depth : Nat) (line : List Char) :
    (indentLine unit depth line).filter isBrace = line.filter isBrace := by
  unfold indentLine
  split
  · next hempty => rw [List.isEmpty_iff.1 hempty]
  · have hspaces : (List.replicate (depth * unit) ' ').filter isBrace = [] := by
      rw [List.filter_eq_nil_iff]
      intro c hc
      rw [List.eq_of_mem_replicate hc]
      decide
    rw [List.filter_append, hspaces, List.nil_append]

theorem flatMap_filter_indentFrom (unit : Nat) (s : State) (lines : List (List Char)) :
    (indentFrom unit s lines).flatMap (·.filter isBrace) = lines.flatMap (·.filter isBrace) := by
  induction lines generalizing s with
  | nil => rfl
  | cons line lines ih =>
    rw [indentFrom, List.flatMap_cons, List.flatMap_cons, filter_indentLine, ih]

/-- Indentation moves no brace. -/
theorem balanced_indent (unit depth : Nat) (lines : List String) :
    Balanced (indent unit depth lines) ↔ Balanced (String.join lines) := by
  refine balanced_congr ?_
  have hbreak : [('\n' : Char)].filter isBrace = [] := by decide
  rw [indent, String.toList_ofList, filter_join, List.filter_flatMap]
  simp only [List.filter_append, hbreak, List.append_nil]
  rw [flatMap_filter_indentFrom, List.flatMap_map]
  simp only [filter_trimChars]

end Layout

namespace Stmt

open Text

mutual

/-- Every text of the statement is balanced by itself, and a choice has an arm. -/
def closed : Stmt → Bool
  | .code text => Balanced text
  | .block head body => Balanced head && allClosed body
  | .choice arms otherwise =>
    !arms.isEmpty && armsClosed arms &&
      (match otherwise with
        | none => true
        | some body => allClosed body)
  | .guarded guard statement => Balanced guard && Balanced statement
  | .comment text => Balanced text
  | .blank => true

def allClosed : List Stmt → Bool
  | [] => true
  | stmt :: rest => stmt.closed && allClosed rest

def armsClosed : List (String × List Stmt) → Bool
  | [] => true
  | (condition, body) :: rest => Balanced condition && allClosed body && armsClosed rest

end

section

variable {α : Type} {text head condition guard statement : String} {stmt : Stmt}
  {stmts rest body otherwise : List Stmt}

/-! ## Lines of one statement -/

theorem balanced_codeLines : Balanced (String.join (codeLines text)) ↔ Balanced text := by
  refine balanced_congr ?_
  rw [filter_join, codeLines, pieces, List.flatMap_map, List.flatMap_map]
  simp only [toList_trim, String.toList_ofList, filter_trimChars, flatMap_filter_splitOn]

theorem balanced_oneLine : Balanced (oneLine text) ↔ Balanced text := by
  refine balanced_congr ?_
  have hjoin (lines : List (List Char)) :
      ([' '].intercalate lines).filter isBrace = lines.flatMap (·.filter isBrace) := by
    induction lines with
    | nil => rfl
    | cons line lines ih =>
      cases lines with
      | nil => rw [List.intercalate_singleton, List.flatMap_singleton]
      | cons next lines =>
        have hspace : [' '].filter isBrace = [] := by decide
        rw [List.intercalate_cons_cons, List.filter_append, List.filter_append, ih, hspace,
          List.append_nil]
        rfl
  have hkept (lines : List (List Char)) :
      (lines.filter (· ≠ [])).flatMap (·.filter isBrace) = lines.flatMap (·.filter isBrace) := by
    induction lines with
    | nil => rfl
    | cons line lines ih => cases line <;> simp_all
  rw [toList_oneLine, hjoin, keptLines, hkept, List.flatMap_map]
  simp only [filter_trimChars, flatMap_filter_splitOn]

theorem opens_armHead (h : Balanced condition) (isFirst : Bool) :
    Opens (if isFirst then 0 else 1) (armHead isFirst condition) 1 := by
  have hend : Opens 0 ") \x7b" 1 := by decide
  unfold armHead
  cases isFirst with
  | true =>
    have hstart : Opens 0 "if (" 0 := by decide
    exact (hstart.append (h.opens 0)).append hend
  | false =>
    have hstart : Opens 1 "\x7d else if (" 0 := by decide
    exact (hstart.append (h.opens 0)).append hend

/-! ## Lines of trees -/

mutual

/-- The braces that a statement is laid out with are closed where it ends. -/
theorem balanced_lines (stmt : Stmt) (h : stmt.closed) : Balanced (String.join stmt.lines) := by
  cases stmt with
  | code text =>
    rw [closed, decide_eq_true_iff] at h
    rw [lines]
    exact balanced_codeLines.2 h
  | block head body =>
    rw [closed, Bool.and_eq_true_iff, decide_eq_true_iff] at h
    have hstart : Opens 0 " \x7b" 1 := by decide
    have hend : Opens 1 (String.join ["\x7d"]) 0 := by decide
    rw [lines, List.cons_append, String.join_cons, String.join_append, balanced_iff_opens]
    exact ((h.1.opens 0).append hstart).append (((balanced_linesOf body h.2).opens 1).append hend)
  | choice arms otherwise =>
    rw [closed.eq_def, Bool.and_eq_true_iff, Bool.and_eq_true_iff] at h
    obtain ⟨⟨hne, harms⟩, hotherwise⟩ := h
    have hstart := opens_armLines arms true harms (by simpa using hne)
    have hend : Opens 1 (String.join ["\x7d"]) 0 := by decide
    rw [lines.eq_def, balanced_iff_opens, String.join_append, String.join_append]
    cases otherwise with
    | none => exact (hstart.append (by decide)).append hend
    | some body =>
      have helse : Opens 1 "\x7d else \x7b" 1 := by decide
      have hbody := helse.append ((balanced_linesOf body hotherwise).opens 1)
      rw [← String.join_cons] at hbody
      exact (hstart.append hbody).append hend
  | guarded guard statement =>
    rw [closed, Bool.and_eq_true_iff, decide_eq_true_iff, decide_eq_true_iff] at h
    rw [lines, String.join_cons]
    exact (balanced_oneLine.2 h.1).append (balanced_codeLines.2 h.2)
  | comment text =>
    rw [closed, decide_eq_true_iff] at h
    have hstart : Balanced "// " := by decide
    rw [lines, String.join_cons]
    exact (hstart.append h).append (by decide)
  | blank => decide

theorem balanced_linesOf (stmts : List Stmt) (h : allClosed stmts) :
    Balanced (String.join (linesOf stmts)) := by
  cases stmts with
  | nil => decide
  | cons stmt rest =>
    rw [allClosed, Bool.and_eq_true_iff] at h
    rw [linesOf, String.join_append]
    exact (balanced_lines stmt h.1).append (balanced_linesOf rest h.2)

/-- Behind each arm its brace is still open; an arm after another one closes that brace first. -/
theorem opens_armLines (arms : List (String × List Stmt)) (isFirst : Bool) (h : armsClosed arms)
    (hfirst : isFirst → arms ≠ []) :
    Opens (if isFirst then 0 else 1) (String.join (armLines isFirst arms)) 1 := by
  cases arms with
  | nil =>
    cases isFirst with
    | true => exact absurd rfl (hfirst rfl)
    | false => decide
  | cons arm rest =>
    obtain ⟨condition, body⟩ := arm
    rw [armsClosed, Bool.and_eq_true_iff, Bool.and_eq_true_iff, decide_eq_true_iff] at h
    obtain ⟨⟨hcondition, hbody⟩, hrest⟩ := h
    rw [armLines, List.cons_append, String.join_cons, String.join_append]
    exact (opens_armHead hcondition isFirst).append
      (((balanced_linesOf body hbody).opens 1).append (opens_armLines rest false hrest (by simp)))

end

/-! ## Making statements from texts -/

theorem closed_code (h : Balanced text) : (Stmt.code text).closed := decide_eq_true h

theorem closed_comment (h : Balanced text) : (Stmt.comment text).closed := decide_eq_true h

theorem closed_block (hhead : Balanced head) (h : allClosed body) :
    (Stmt.block head body).closed := by
  rw [closed, Bool.and_eq_true_iff, decide_eq_true_iff]
  exact ⟨hhead, h⟩

theorem closed_guarded (hguard : Balanced guard) (h : Balanced statement) :
    (Stmt.guarded guard statement).closed := by
  rw [closed, Bool.and_eq_true_iff, decide_eq_true_iff, decide_eq_true_iff]
  exact ⟨hguard, h⟩

theorem closed_onlyIf (hcondition : Balanced condition) (h : Balanced statement) :
    (Stmt.onlyIf condition statement).closed :=
  closed_guarded (.insert (by decide) hcondition) h

theorem closed_ifThen (hcondition : Balanced condition) (h : allClosed body) :
    (Stmt.ifThen condition body).closed := by
  simp [Stmt.ifThen, closed, armsClosed, hcondition, h]

theorem closed_ifElse (hcondition : Balanced condition) (h : allClosed body)
    (hotherwise : allClosed otherwise) : (Stmt.ifElse condition body otherwise).closed := by
  simp [Stmt.ifElse, closed, armsClosed, hcondition, h, hotherwise]

theorem allClosed_cons_iff : allClosed (stmt :: rest) ↔ stmt.closed ∧ allClosed rest := by
  rw [allClosed, Bool.and_eq_true_iff]

theorem allClosed_cons (h : stmt.closed) (hrest : allClosed rest) : allClosed (stmt :: rest) :=
  allClosed_cons_iff.2 ⟨h, hrest⟩

theorem allClosed_append (h : allClosed stmts) (hrest : allClosed rest) :
    allClosed (stmts ++ rest) := by
  induction stmts with
  | nil => exact hrest
  | cons stmt stmts ih =>
    rw [allClosed_cons_iff] at h
    exact allClosed_cons h.1 (ih h.2)

theorem allClosed_flatMap {items : List α} {f : α → List Stmt}
    (h : ∀ item ∈ items, allClosed (f item)) : allClosed (items.flatMap f) := by
  induction items with
  | nil => rfl
  | cons item items ih =>
    rw [List.forall_mem_cons] at h
    rw [List.flatMap_cons]
    exact allClosed_append h.1 (ih h.2)

end

end Stmt

end Extractor
