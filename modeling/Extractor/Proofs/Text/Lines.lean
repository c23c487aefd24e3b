import Extractor.Text.Lines
import Mathlib.Data.List.Basic
/-!
# Texts made of lines

A text in which every line ends with a break, and the pieces of a text as such lines: cutting at a
separator loses nothing but the separators (`flatMap_splitOn`), and leaves none in a piece
(`not_mem_of_mem_splitOn`).
-/

namespace Extractor.Text

/-- Lines, each ended by a break. -/
def unlines (lines : List String) : String := String.join (lines.map (· ++ "\n"))

section

variable {α : Type} [DecidableEq α] {sep : α} {text piece : List α}

/-- The pieces make up the text again when each is ended by the separator. -/
theorem flatMap_splitOn (sep : α) (text : List α) :
    (text.splitOn sep).flatMap (· ++ [sep]) = text ++ [sep] := by
  induction text with
  | nil => rfl
  | cons c text ih =>
    rw [List.splitOn_cons_eq_if_modifyHead]
    split
    · next hc => rw [List.flatMap_cons, ih, beq_iff_eq.1 hc, List.nil_append, List.singleton_append,
        List.cons_append]
    · obtain ⟨first, rest, hsplit⟩ := List.exists_cons_of_ne_nil (List.splitOn_ne_nil sep text)
      rw [hsplit, List.flatMap_cons] at ih
      rw [hsplit, List.modifyHead_cons, List.flatMap_cons, List.cons_append, List.cons_append, ih,
        List.cons_append]

theorem not_mem_of_mem_splitOn (h : piece ∈ text.splitOn sep) : sep ∉ piece := by
  induction text generalizing piece with
  | nil =>
    rw [List.splitOn_nil, List.mem_singleton] at h
    rw [h]
    exact List.not_mem_nil
  | cons c text ih =>
    rw [List.splitOn_cons_eq_if_modifyHead] at h
    split at h
    · rcases List.mem_cons.1 h with rfl | h
      · exact List.not_mem_nil
      · exact ih h
    · next hc =>
      obtain ⟨first, rest, hsplit⟩ := List.exists_cons_of_ne_nil (List.splitOn_ne_nil sep text)
      rw [hsplit] at ih
      rw [hsplit, List.modifyHead_cons] at h
      rcases List.mem_cons.1 h with rfl | h
      · rw [List.mem_cons, not_or]
        exact ⟨fun heq => hc (beq_iff_eq.2 heq.symm), ih List.mem_cons_self⟩
      · exact ih (List.mem_cons_of_mem first h)

/-- What comes before the first separator stands in the first piece. -/
theorem splitOn_append_of_not_mem {front : List α} (h : sep ∉ front) :
    (front ++ text).splitOn sep = (text.splitOn sep).modifyHead (front ++ ·) := by
  induction front with
  | nil =>
    rw [List.nil_append]
    cases text.splitOn sep <;> rfl
  | cons c front ih =>
    rw [List.mem_cons, not_or] at h
    rw [List.cons_append, List.splitOn_cons_eq_if_modifyHead, if_neg (by simpa using Ne.symm h.1),
      ih h.2, List.modifyHead_modifyHead]
    rfl

theorem splitOn_concat {c : α} (text : List α) (h : c ≠ sep) :
    ∃ init last, (text ++ [c]).splitOn sep = init ++ [last ++ [c]] := by
  induction text with
  | nil => exact ⟨[], [], by simp [List.splitOn_cons_eq_if_modifyHead, h]⟩
  | cons d text ih =>
    obtain ⟨init, last, ih⟩ := ih
    rw [List.cons_append, List.splitOn_cons_eq_if_modifyHead, ih]
    by_cases hd : (d == sep) = true
    · exact ⟨[] :: init, last, by rw [if_pos hd]; rfl⟩
    · rw [if_neg hd]
      cases init with
      | nil => exact ⟨[], d :: last, rfl⟩
      | cons first init => exact ⟨(d :: first) :: init, last, rfl⟩

end

/-! ## Joined pieces -/

section

variable {α : Type} {c sep : α} {piece joint : List α} {pieces : List (List α)}

theorem infix_intercalate (h : piece ∈ pieces) : piece <:+: joint.intercalate pieces := by
  induction pieces with
  | nil => exact absurd h List.not_mem_nil
  | cons first pieces ih =>
    cases pieces with
    | nil =>
      rw [List.mem_singleton.1 h]
      exact ⟨[], [], by simp⟩
    | cons next pieces =>
      rw [List.intercalate_cons_cons]
      rcases List.mem_cons.1 h with rfl | h
      · exact ⟨[], joint ++ joint.intercalate (next :: pieces), by simp⟩
      · exact (ih h).trans (List.suffix_append _ _).isInfix

theorem not_mem_intercalate (hc : c ≠ sep) (h : ∀ piece ∈ pieces, c ∉ piece) :
    c ∉ [sep].intercalate pieces := by
  induction pieces with
  | nil => exact List.not_mem_nil
  | cons piece pieces ih =>
    rw [List.forall_mem_cons] at h
    cases pieces with
    | nil =>
      rw [List.intercalate_singleton]
      exact h.1
    | cons next pieces =>
      rw [List.intercalate_cons_cons]
      simp [hc, h.1, ih h.2]

end

section

variable {lines more : List String}

theorem toList_unlines (lines : List String) :
    (unlines lines).toList = lines.flatMap (·.toList ++ ['\n']) := by
  rw [unlines]
  induction lines with
  | nil => rfl
  | cons line lines ih => simp [String.join_cons, ih]

theorem unlines_append (lines more : List String) :
    unlines (lines ++ more) = unlines lines ++ unlines more := by
  rw [← String.toList_inj, String.toList_append, toList_unlines, toList_unlines, toList_unlines,
    List.flatMap_append]

/-- Rows with a break behind each are lines, and so are their pieces where a row has breaks of its
own. -/
theorem unlines_pieces (rows : List (List Char)) :
    unlines (rows.flatMap fun row => (row.splitOn '\n').map String.ofList) =
      String.ofList (rows.flatMap (· ++ ['\n'])) := by
  rw [← String.toList_inj, toList_unlines, String.toList_ofList, List.flatMap_assoc]
  simp only [List.flatMap_map, String.toList_ofList, flatMap_splitOn]

end

end Extractor.Text
