import Extractor.Proofs.Text.Blank
import Extractor.Proofs.Text.Lines
import Extractor.Proofs.Text.Search
/-!
# Lines as a reader counts them

The physical lines of a text are its pieces between line breaks, each without the carriage return
that belongs to its break (`getElem?_physicalLinesOf`). Rows that end in neither are the physical
lines of the text that they make up (`physicalLines_unlines`).
-/

namespace Extractor.Text

section

variable {line : List Char} {n : Nat} {lines rows : List (List Char)}

theorem dropCarriageReturn_eq_self (h : line.getLast? ≠ some '\r') :
    dropCarriageReturn line = line := by
  unfold dropCarriageReturn
  cases hsuffix : ['\r'].isSuffixOf? line with
  | none => rfl
  | some front =>
    obtain rfl := isSuffixOf?_eq_some_iff.1 hsuffix
    exact absurd List.getLast?_concat h

theorem physicalLinesOf_concat_nil (rows : List (List Char)) :
    physicalLinesOf (rows ++ [[]]) = rows.map dropCarriageReturn := by
  induction rows with
  | nil => rfl
  | cons row rows ih =>
    rw [List.map_cons, ← ih]
    cases rows <;> rfl

/-- The last line keeps its carriage return, since no break follows, and is no line if it is
empty. -/
theorem getElem?_physicalLinesOf (h : lines[n]? = some line) (hne : line ≠ []) :
    (physicalLinesOf lines)[n]? =
      some (if n + 1 < lines.length then dropCarriageReturn line else line) := by
  induction lines generalizing n with
  | nil => cases h
  | cons first lines ih =>
    cases lines with
    | nil =>
      cases n with
      | zero =>
        obtain rfl := Option.some.inj h
        simp [physicalLinesOf, hne]
      | succ n => cases h
    | cons next lines =>
      cases n with
      | zero =>
        obtain rfl := Option.some.inj h
        simp [physicalLinesOf]
      | succ n =>
        rw [physicalLinesOf, List.getElem?_cons_succ, ih h]
        simp

/-- White space at the end of a line covers the carriage return. -/
theorem dropBlankEnd_isPrefix_dropCarriageReturn (line : List Char) :
    dropBlankEnd line <+: dropCarriageReturn line := by
  unfold dropCarriageReturn
  cases hsuffix : ['\r'].isSuffixOf? line with
  | none => exact dropBlankEnd_isPrefix line
  | some front =>
    obtain rfl := isSuffixOf?_eq_some_iff.1 hsuffix
    rw [dropBlankEnd_append_of_blank rfl]
    exact dropBlankEnd_isPrefix front

end

/-- What a reader sees of the line with that many line breaks before it. A carriage return that
stands before its own break is not seen. -/
def lineSeen? (text : String) (number : Nat) : Option (List Char) :=
  let rows := text.toList.splitOn '\n'
  rows[number]?.map fun row => if number + 1 < rows.length then dropCarriageReturn row else row

section

variable {text : String} {row : List Char} {n : Nat}

/-- A line that is not blank is seen up to the white space at its end, and is a line for a reader. -/
theorem lineSeen?_of_row (h : (text.toList.splitOn '\n')[n]? = some row)
    (hne : dropBlankEnd row ≠ []) :
    ∃ line, lineSeen? text n = some line ∧ dropBlankEnd row <+: line ∧
      (physicalLines text)[n]? = some (String.ofList line) := by
  have hrow : row ≠ [] := by
    rintro rfl
    exact hne rfl
  refine ⟨_, congrArg (Option.map _) h, ?_, ?_⟩
  · split
    · exact dropBlankEnd_isPrefix_dropCarriageReturn row
    · exact dropBlankEnd_isPrefix row
  · rw [physicalLines, List.getElem?_map, getElem?_physicalLinesOf h hrow, Option.map_some]

end

/-- Rows with a break behind each are the pieces between these breaks. -/
theorem splitOn_flatMap {α : Type} [DecidableEq α] {sep : α} {rows : List (List α)}
    (h : ∀ row ∈ rows, sep ∉ row) : (rows.flatMap (· ++ [sep])).splitOn sep = rows ++ [[]] := by
  induction rows with
  | nil => rfl
  | cons row rows ih =>
    obtain ⟨hrow, hothers⟩ := List.forall_mem_cons.1 h
    rw [List.flatMap_cons, List.append_assoc, splitOn_append_of_not_mem hrow,
      List.singleton_append, List.splitOn_cons_eq_if_modifyHead, if_pos (beq_self_eq_true sep),
      ih hothers, List.modifyHead_cons, List.append_nil, List.cons_append]

theorem physicalLines_unlines {rows : List String}
    (h : ∀ row ∈ rows, '\n' ∉ row.toList ∧ row.toList.getLast? ≠ some '\r') :
    physicalLines (unlines rows) = rows := by
  have hbreaks : ∀ row ∈ rows.map String.toList, '\n' ∉ row :=
    List.forall_mem_map.2 fun row hrow => (h row hrow).1
  have hsplit := splitOn_flatMap hbreaks
  rw [List.flatMap_map] at hsplit
  rw [physicalLines, toList_unlines, hsplit, physicalLinesOf_concat_nil, List.map_map, List.map_map]
  refine (List.map_congr_left fun row hrow => ?_).trans (List.map_id rows)
  rw [Function.comp_apply, Function.comp_apply, dropCarriageReturn_eq_self (h row hrow).2,
    String.ofList_toList]
  rfl

end Extractor.Text
