import Extractor.Proofs.Code.Printer
import Extractor.Proofs.Text.Search
import Extractor.Proofs.Text.Trimmed
/-!
# Guards on one line

Joining the lines of a guard leaves one line (`not_mem_oneLine`), which is trimmed
(`trimChars_oneLine`), and a guard made from a condition stays a guard whatever the condition is
(`openGuard_oneLine`).
-/

namespace Extractor

namespace Text

section

variable {sep : Char} {line : List Char} {lines : List (List Char)}

theorem head?_intercalate (h : line ≠ []) :
    ([sep].intercalate (line :: lines)).head? = line.head? := by
  cases lines with
  | nil => rw [List.intercalate_singleton]
  | cons next lines =>
    obtain ⟨c, line, rfl⟩ := List.exists_cons_of_ne_nil h
    rw [List.intercalate_cons_cons]
    rfl

theorem getLast?_intercalate (h : line ≠ []) :
    ([sep].intercalate (lines ++ [line])).getLast? = line.getLast? := by
  induction lines with
  | nil => rw [List.nil_append, List.intercalate_singleton]
  | cons first lines ih =>
    rw [List.cons_append, List.intercalate_cons_of_ne_nil (by simp), List.getLast?_append, ih]
    cases hlast : line.getLast? with
    | none => exact absurd (List.getLast?_eq_none_iff.1 hlast) h
    | some c => rfl

end

end Text

namespace Stmt

open Layout Text

/-- The lines of a text that are not blank, trimmed. -/
def keptLines (text : List Char) : List (List Char) :=
  ((text.splitOn '\n').map trimChars).filter (· ≠ [])

section

variable {front line : List Char} {c : Char}

theorem toList_oneLine (text : String) :
    (oneLine text).toList = [' '].intercalate (keptLines text.toList) := by
  have hempty (line : List Char) : trim (String.ofList line) = "" ↔ trimChars line = [] := by
    rw [← String.toList_inj, toList_trim, String.toList_ofList]
    rfl
  unfold oneLine keptLines codeLines pieces
  rw [String.toList_intercalate, List.map_map, List.filter_map, List.filter_map, List.map_map]
  simp [Function.comp_def, hempty]

theorem mem_keptLines {text : List Char} (h : line ∈ keptLines text) :
    line ≠ [] ∧ trimChars line = line := by
  obtain ⟨hline, hne⟩ := List.mem_filter.1 h
  obtain ⟨line, -, rfl⟩ := List.mem_map.1 hline
  exact ⟨by simpa using hne, trimChars_trimChars line⟩

theorem not_mem_oneLine (text : String) : '\n' ∉ (oneLine text).toList := by
  rw [toList_oneLine]
  refine not_mem_intercalate (by decide) fun line hline => ?_
  obtain ⟨piece, hpiece, rfl⟩ := List.mem_map.1 (List.mem_filter.1 hline).1
  exact not_mem_trimChars (not_mem_of_mem_splitOn hpiece)

/-- The line that a text is joined to is trimmed. -/
theorem trimChars_oneLine (text : String) :
    trimChars (oneLine text).toList = (oneLine text).toList := by
  rw [toList_oneLine]
  have hmem : ∀ line ∈ keptLines text.toList, line ≠ [] ∧ trimChars line = line :=
    fun _ => mem_keptLines
  apply trimChars_eq_self
  · cases hlines : keptLines text.toList with
    | nil => rfl
    | cons line lines =>
      rw [hlines, List.forall_mem_cons] at hmem
      obtain ⟨⟨hne, htrim⟩, -⟩ := hmem
      rw [head?_intercalate hne, ← htrim]
      exact head?_dropBlankEnd_dropWhile line
  · rcases List.eq_nil_or_concat (keptLines text.toList) with hlines | ⟨lines, line, hlines⟩
    · rw [hlines]
      rfl
    · rw [List.concat_eq_append] at hlines
      rw [hlines, List.forall_mem_append, List.forall_mem_singleton] at hmem
      obtain ⟨-, hne, htrim⟩ := hmem
      rw [hlines, getLast?_intercalate hne, ← htrim]
      exact getLast?_dropBlankEnd _

/-- A text keeps what it starts with. -/
theorem isPrefix_oneLine (text : String) (hstart : front <+: text.toList) (hne : front ≠ [])
    (hbreak : '\n' ∉ front) (htrim : trimChars front = front) :
    front <+: (oneLine text).toList := by
  obtain ⟨rest, hrest⟩ := hstart
  rw [toList_oneLine, ← hrest, keptLines, splitOn_append_of_not_mem hbreak]
  obtain ⟨piece, pieces, hpieces⟩ := List.exists_cons_of_ne_nil (List.splitOn_ne_nil '\n' rest)
  rw [hpieces, List.modifyHead_cons, List.map_cons, trimChars_append _ htrim hne,
    List.filter_cons_of_pos (by simp [hne])]
  generalize (pieces.map trimChars).filter (· ≠ []) = lines
  have hline : front <+: front ++ dropBlankEnd piece := List.prefix_append _ _
  cases lines with
  | nil => rwa [List.intercalate_singleton]
  | cons next lines =>
    rw [List.intercalate_cons_cons, List.append_assoc]
    exact hline.trans (List.prefix_append _ _)

/-- A text keeps the character it ends with. -/
theorem getLast?_oneLine (text : String) (hlast : text.toList.getLast? = some c)
    (hc : isBlank c = false) : (oneLine text).toList.getLast? = some c := by
  obtain ⟨front, hfront⟩ := List.getLast?_eq_some_iff.1 hlast
  have hbreak : c ≠ '\n' := by
    rintro rfl
    exact Bool.noConfusion hc
  obtain ⟨init, last, hsplit⟩ := splitOn_concat front hbreak
  rw [toList_oneLine, hfront, keptLines, hsplit, List.map_append, List.map_singleton,
    trimChars_append_of_not_blank hc, List.filter_append, List.filter_cons_of_pos (by simp),
    List.filter_nil, getLast?_intercalate (by simp), List.getLast?_concat]

end

/-- The table of ranges is searched as a list, which evaluates well. -/
theorem isAlphanumeric_eq (c : Char) :
    isAlphanumeric c =
      wordRanges.toList.any fun (first, last) => first ≤ c.toNat && c.toNat ≤ last := by
  rw [isAlphanumeric, Array.any_toList]

theorem isWordChar_space : isWordChar ' ' = false := by
  rw [isWordChar, isAlphanumeric_eq]
  decide +kernel

/-- No condition spoils its guard. -/
theorem openGuard_oneLine (condition : String) :
    OpenGuard (oneLine ("if (" ++ condition ++ ")")).toList := by
  have htext : ("if (" ++ condition ++ ")").toList = "if (".toList ++ (condition.toList ++ [')']) := by
    simp
  generalize "if (" ++ condition ++ ")" = text at htext ⊢
  have hstart : "if (".toList <+: (oneLine text).toList :=
    isPrefix_oneLine text ⟨_, htext.symm⟩ (by decide) (by decide) (by decide)
  have hlast : (oneLine text).toList.getLast? = some ')' := by
    refine getLast?_oneLine text ?_ (by decide)
    rw [htext, ← List.append_assoc, List.getLast?_concat]
  generalize (oneLine text).toList = line at hstart hlast ⊢
  obtain ⟨rest, rfl⟩ := hstart
  refine ⟨rfl, ?_⟩
  have hword : startsWithWord "if" ("if (".toList ++ rest) = true := by
    have hrest : "if (".toList ++ rest = "if".toList ++ (" (".toList ++ rest) := rfl
    unfold startsWithWord
    rw [hrest, isPrefixOf?_append]
    show (!isWordChar ' ') = true
    rw [isWordChar_space]
    rfl
  unfold isOpenGuard opensBlock
  rw [isSuffixOf_singleton, isSuffixOf_singleton, hlast, hword]
  rfl

end Stmt

end Extractor
