import Extractor.Proofs.Code.Indentation
import Extractor.Proofs.Text.PhysicalLines
/-!
# Indenting again

Indentation moves each line sideways and changes nothing else in it. Its decisions hang on the
trimmed lines alone, so they are the same for the rows that it has written, and indenting these
again changes nothing (`indent_indent`).
-/

namespace Extractor.Layout

open Text

/-- The row has the text of the line, and white space before it only. -/
structure Moved (line row : String) : Prop where
  trim_eq : trim row = trim line
  trimEnd_eq : trimEnd row = row
  blank : trim line = "" → row = ""
  unbroken : '\n' ∉ row.toList

section

variable {text : List Char} {line row : String} {lines rows : List String}

/-! ## One line -/

theorem getLast?_ne_of_trimEnd_eq (h : trimEnd row = row) : row.toList.getLast? ≠ some '\r' := by
  have hlast := getLast?_dropBlankEnd row.toList
  rw [← toList_trimEnd, h] at hlast
  intro hreturn
  rw [hreturn] at hlast
  exact absurd hlast (by decide)

theorem moved_indentLine (unit depth : Nat) (htext : trimChars line.toList = text)
    (hbreak : '\n' ∉ text) : Moved line (String.ofList (indentLine unit depth text)) := by
  have hline : (trim line).toList = text := (toList_trim line).trans htext
  have htrimmed : trimChars text = text := htext ▸ trimChars_trimChars line.toList
  by_cases hempty : text = []
  · have hrow : String.ofList (indentLine unit depth text) = "" := by
      rw [hempty]
      rfl
    have hblank : trim line = "" := by rw [← String.toList_eq_nil_iff, hline, hempty]
    rw [hrow]
    exact ⟨hblank.symm, rfl, fun _ => rfl, List.not_mem_nil⟩
  · have hspace : (List.replicate (depth * unit) ' ').all isBlank = true := by
      rw [List.all_replicate]
      simp [isBlank]
    have hrow : indentLine unit depth text = List.replicate (depth * unit) ' ' ++ text :=
      if_neg (by simpa using hempty)
    have hend : dropBlankEnd text = text := dropBlankEnd_of_trimmed htrimmed
    refine ⟨?_, ?_, fun hblank => ?_, ?_⟩
    · rw [← String.toList_inj, toList_trim, String.toList_ofList, hrow,
        trimChars_append_of_all_blank hspace, htrimmed, hline]
    · rw [← String.toList_inj, toList_trimEnd, String.toList_ofList, hrow,
        dropBlankEnd_append_of_ne_nil (by rwa [hend]), hend]
    · rw [hblank] at hline
      exact absurd hline.symm hempty
    · rw [String.toList_ofList, hrow, List.mem_append, not_or]
      exact ⟨fun hmem => absurd (List.eq_of_mem_replicate hmem) (by decide), hbreak⟩

/-! ## All lines -/

/-- Whatever the state, each line is moved. -/
theorem forall₂_moved (unit : Nat) (s : State) (h : ∀ line ∈ lines, '\n' ∉ line.toList) :
    List.Forall₂ Moved lines ((indentFrom unit s (trimmed lines)).map String.ofList) := by
  induction lines generalizing s with
  | nil => exact .nil
  | cons line lines ih =>
    obtain ⟨hline, hothers⟩ := List.forall_mem_cons.1 h
    exact .cons (moved_indentLine unit _ rfl (not_mem_trimChars hline)) (ih _ hothers)

theorem indent_eq_unlines (unit depth : Nat) (lines : List String) :
    indent unit depth lines =
      unlines ((indentFrom unit (State.ofDepth depth) (trimmed lines)).map String.ofList) := by
  rw [← String.toList_inj, toList_unlines, List.flatMap_map, indent, String.toList_ofList]
  simp only [String.toList_ofList]
  rfl

theorem physicalLines_unlines_of_moved (h : List.Forall₂ Moved lines rows) :
    physicalLines (unlines rows) = rows := by
  apply physicalLines_unlines
  induction h with
  | nil => exact List.forall_mem_nil _
  | cons hmoved _ ih =>
    have hends := getLast?_ne_of_trimEnd_eq hmoved.trimEnd_eq
    exact List.forall_mem_cons.2 ⟨⟨hmoved.unbroken, hends⟩, ih⟩

theorem trimmed_eq_of_moved (h : List.Forall₂ Moved lines rows) : trimmed rows = trimmed lines := by
  induction h with
  | nil => rfl
  | cons hmoved _ ih =>
    have htrim := congrArg String.toList hmoved.trim_eq
    rw [toList_trim, toList_trim] at htrim
    unfold trimmed at ih ⊢
    rw [List.map_cons, List.map_cons, htrim, ih]

/-- **Indentation moves lines sideways, and only once.** The text has one row for each line, with
the text of the line, and indenting its rows gives the same text again. -/
theorem indent_indent (unit depth : Nat) (h : ∀ line ∈ lines, '\n' ∉ line.toList) :
    let rows := physicalLines (indent unit depth lines)
    indent unit depth lines = unlines rows ∧ List.Forall₂ Moved lines rows ∧
      indent unit depth rows = indent unit depth lines := by
  intro rows
  have hmoved := forall₂_moved unit (State.ofDepth depth) h
  have hrows : rows = (indentFrom unit (State.ofDepth depth) (trimmed lines)).map String.ofList := by
    rw [← physicalLines_unlines_of_moved hmoved, ← indent_eq_unlines]
  rw [← hrows] at hmoved
  refine ⟨?_, hmoved, ?_⟩
  · rw [hrows, indent_eq_unlines]
  · have htrimmed := trimmed_eq_of_moved hmoved
    unfold trimmed at htrimmed
    rw [indent, htrimmed, indent]

end

/-- Braces that do not match, white space of several sorts, and a guard with a blank line behind. -/
theorem indent_indent_unbalanced :
    let lines := ["\x7d", "\tif (a) \x7b \r", "", "else ", "  // b\u00a0", "\x7d \x7d", "c;", "\x7b"]
    (∀ line ∈ lines, '\n' ∉ line.toList) ∧
      (let rows := physicalLines (indent 2 0 lines)
       indent 2 0 lines = unlines rows ∧ List.Forall₂ Moved lines rows ∧
         indent 2 0 rows = indent 2 0 lines) ∧
      indent 2 0 lines =
        "\x7d\nif (a) \x7b\n\n  else\n    // b\n  \x7d \x7d\nc;\n\x7b\n" := by
  intro lines
  have hbreaks : ∀ line ∈ lines, '\n' ∉ line.toList := by decide +kernel
  exact ⟨hbreaks, indent_indent 2 0 hbreaks, by decide +kernel⟩

end Extractor.Layout
