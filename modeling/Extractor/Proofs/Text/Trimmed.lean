import Extractor.Proofs.Text.Blank
import Extractor.Proofs.Text.Lines
/-!
# Texts whose lines are trimmed

Such a text can be built from trimmed pieces and line breaks (`LinesTrimmed.prepend`,
`LinesTrimmed.newLine`), and stays one when it is trimmed itself (`LinesTrimmed.trim`).
-/

namespace Extractor.Text

/-- No line of the text starts or ends with white space. -/
def LinesTrimmed (text : List Char) : Prop := ∀ line ∈ text.splitOn '\n', trimChars line = line

instance (text : List Char) : Decidable (LinesTrimmed text) :=
  inferInstanceAs (Decidable (∀ line ∈ text.splitOn '\n', trimChars line = line))

section

variable {c : Char} {s t : List Char}

theorem dropBlankEnd_of_trimmed (h : trimChars s = s) : dropBlankEnd s = s := by
  rw [← h]
  exact dropBlankEnd_dropBlankEnd _

theorem not_blank_of_trimmed_cons (h : trimChars (c :: s) = c :: s) : isBlank c = false := by
  have hhead := head?_dropBlankEnd_dropWhile (c :: s)
  rw [← trimChars, h] at hhead
  simpa using hhead

theorem not_blank_of_trimmed_concat (h : trimChars (s ++ [c]) = s ++ [c]) : isBlank c = false := by
  have hlast := getLast?_dropBlankEnd (s ++ [c])
  rw [dropBlankEnd_of_trimmed h, List.getLast?_concat] at hlast
  simpa using hlast

theorem trimChars_append_of_trimmed (hs : trimChars s = s) (ht : trimChars t = t) :
    trimChars (s ++ t) = s ++ t := by
  by_cases hne : s = []
  · rw [hne, List.nil_append, ht]
  · rw [trimChars_append t hs hne, dropBlankEnd_of_trimmed ht]

theorem not_mem_trimChars (h : c ∉ s) : c ∉ trimChars s := fun hc =>
  h ((List.dropWhile_sublist _).subset ((dropBlankEnd_isPrefix _).subset hc))

namespace LinesTrimmed

theorem nil : LinesTrimmed [] := by decide

/-- A line break opens a new line. -/
theorem newLine (h : LinesTrimmed t) : LinesTrimmed ('\n' :: t) := by
  unfold LinesTrimmed
  rw [List.splitOn_cons_eq_if_modifyHead, if_pos (beq_self_eq_true '\n')]
  exact List.forall_mem_cons.2 ⟨rfl, h⟩

/-- A trimmed text before the first line leaves this line trimmed. -/
theorem prepend (hs : trimChars s = s) (hbreak : '\n' ∉ s) (h : LinesTrimmed t) :
    LinesTrimmed (s ++ t) := by
  unfold LinesTrimmed at h ⊢
  rw [splitOn_append_of_not_mem hbreak]
  obtain ⟨first, rest, hsplit⟩ := List.exists_cons_of_ne_nil (List.splitOn_ne_nil '\n' t)
  rw [hsplit, List.forall_mem_cons] at h
  rw [hsplit, List.modifyHead_cons, List.forall_mem_cons]
  exact ⟨trimChars_append_of_trimmed hs h.1, h.2⟩

/-! ## Trimming the whole -/

/-- White space at the start of the text can only be line breaks. -/
theorem of_cons_blank (hc : isBlank c = true) (h : LinesTrimmed (c :: s)) : LinesTrimmed s := by
  unfold LinesTrimmed at h
  rw [List.splitOn_cons_eq_if_modifyHead] at h
  split at h
  · exact (List.forall_mem_cons.1 h).2
  · obtain ⟨first, rest, hsplit⟩ := List.exists_cons_of_ne_nil (List.splitOn_ne_nil '\n' s)
    rw [hsplit, List.modifyHead_cons, List.forall_mem_cons] at h
    rw [not_blank_of_trimmed_cons h.1] at hc
    cases hc

/-- So it can at the end. -/
theorem of_concat_blank (hc : isBlank c = true) (h : LinesTrimmed (s ++ [c])) :
    LinesTrimmed s := by
  unfold LinesTrimmed at h
  by_cases hbreak : c = '\n'
  · rw [hbreak, List.splitOn_append_cons_of_beq s [] (beq_self_eq_true '\n')] at h
    exact fun line hline => h line (List.mem_append_left _ hline)
  · obtain ⟨init, last, hsplit⟩ := splitOn_concat s hbreak
    rw [hsplit] at h
    have hlast := h _ (List.mem_append_right init List.mem_cons_self)
    rw [not_blank_of_trimmed_concat hlast] at hc
    cases hc

theorem dropWhile (h : LinesTrimmed s) : LinesTrimmed (s.dropWhile isBlank) := by
  induction s with
  | nil => exact h
  | cons c s ih =>
    rw [List.dropWhile_cons]
    split
    · next hc => exact ih (h.of_cons_blank hc)
    · exact h

theorem dropEnd (h : LinesTrimmed s) : LinesTrimmed (dropBlankEnd s) := by
  induction s using List.reverseRecOn with
  | nil => exact h
  | append_singleton s c ih =>
    cases hc : isBlank c with
    | true =>
      rw [dropBlankEnd_append_of_blank hc]
      exact ih (h.of_concat_blank hc)
    | false => rwa [dropBlankEnd_append_of_not_blank hc]

theorem trim (h : LinesTrimmed s) : LinesTrimmed (trimChars s) := h.dropWhile.dropEnd

end LinesTrimmed

end

end Extractor.Text
