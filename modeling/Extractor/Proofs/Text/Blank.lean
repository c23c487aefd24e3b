import Extractor.Text.Blank
import Extractor.Text.Lines
import Mathlib.Data.List.DropRight
/-!
# Trimmed texts

What trimming does to the ends of a text, and that it changes nothing about which of its pieces are
blank (`map_all_splitOn_trimChars`).
-/

namespace Extractor.Text

theorem dropBlankEnd_eq_rdropWhile (s : List Char) : dropBlankEnd s = s.rdropWhile isBlank := by
  induction s with
  | nil => rfl
  | cons c r ih =>
    rw [dropBlankEnd, ih, List.rdropWhile, List.rdropWhile, List.reverse_cons, List.dropWhile_append]
    cases h : r.reverse.dropWhile isBlank with
    | nil => cases hc : isBlank c <;> simp [hc]
    | cons d t =>
      have hne : (d :: t).reverse ≠ [] := by simp
      obtain ⟨x, y, hxy⟩ := List.exists_cons_of_ne_nil hne
      rw [hxy]
      simp [← hxy]

section

variable {c : Char} {s : List Char}

theorem dropBlankEnd_append_of_blank (hc : isBlank c = true) :
    dropBlankEnd (s ++ [c]) = dropBlankEnd s := by
  rw [dropBlankEnd_eq_rdropWhile, dropBlankEnd_eq_rdropWhile, List.rdropWhile_concat_pos _ _ _ hc]

theorem dropBlankEnd_append_of_not_blank (hc : isBlank c = false) :
    dropBlankEnd (s ++ [c]) = s ++ [c] := by
  rw [dropBlankEnd_eq_rdropWhile, List.rdropWhile_concat_neg]
  rw [hc]
  exact Bool.false_ne_true

theorem dropBlankEnd_eq_nil_iff : dropBlankEnd s = [] ↔ s.all isBlank = true := by
  rw [dropBlankEnd_eq_rdropWhile, List.rdropWhile_eq_nil_iff, List.all_eq_true]

theorem dropBlankEnd_cons_of_not_blank (hc : isBlank c = false) :
    dropBlankEnd (c :: s) = c :: dropBlankEnd s := by
  rw [dropBlankEnd]
  cases dropBlankEnd s with
  | nil => simp [hc]
  | cons d t => rfl

theorem dropBlankEnd_isPrefix (s : List Char) : dropBlankEnd s <+: s := by
  rw [dropBlankEnd_eq_rdropWhile]
  exact List.rdropWhile_prefix _ _

@[simp] theorem dropBlankEnd_dropBlankEnd (s : List Char) :
    dropBlankEnd (dropBlankEnd s) = dropBlankEnd s := by
  simp only [dropBlankEnd_eq_rdropWhile, List.rdropWhile_idempotent]

theorem dropBlankEnd_append_of_all_blank {space : List Char} (h : space.all isBlank = true) :
    dropBlankEnd (s ++ space) = dropBlankEnd s := by
  induction space using List.reverseRecOn with
  | nil => rw [List.append_nil]
  | append_singleton space c ih =>
    rw [List.all_append, Bool.and_eq_true, List.all_cons, List.all_nil, Bool.and_true] at h
    rw [← List.append_assoc, dropBlankEnd_append_of_blank h.2, ih h.1]

/-- A text that is not blank loses nothing of what stands before it. -/
theorem dropBlankEnd_append_of_ne_nil {t : List Char} (ht : dropBlankEnd t ≠ []) :
    dropBlankEnd (s ++ t) = s ++ dropBlankEnd t := by
  induction s with
  | nil => rfl
  | cons c s ih =>
    rw [List.cons_append, dropBlankEnd, ih]
    split
    · next hnil => exact absurd (List.append_eq_nil_iff.1 hnil).2 ht
    · next hcons => rw [List.cons_append, hcons]

theorem all_dropWhile_isBlank (s : List Char) : (s.dropWhile isBlank).all isBlank = s.all isBlank := by
  induction s with
  | nil => rfl
  | cons c s ih =>
    rw [List.dropWhile_cons]
    cases hc : isBlank c with
    | true => simp [hc, ih]
    | false => simp [hc]

theorem trimChars_eq_nil_iff : trimChars s = [] ↔ s.all isBlank = true := by
  rw [trimChars, dropBlankEnd_eq_nil_iff, all_dropWhile_isBlank]

theorem trim_eq_empty_iff {t : String} : trim t = "" ↔ isBlankText t = true := by
  rw [isBlankText, ← trimChars_eq_nil_iff, ← String.toList_eq_nil_iff, toList_trim]

/-- A text that starts and ends otherwise than blank is trimmed. -/
theorem trimChars_eq_self (hhead : s.head?.any isBlank = false)
    (hlast : s.getLast?.any isBlank = false) : trimChars s = s := by
  have hdrop : s.dropWhile isBlank = s := by
    cases s with
    | nil => rfl
    | cons c s => simpa using hhead
  rw [trimChars, hdrop]
  rcases List.eq_nil_or_concat s with rfl | ⟨front, c, rfl⟩
  · rfl
  · rw [List.concat_eq_append] at hlast ⊢
    exact dropBlankEnd_append_of_not_blank (by simpa using hlast)

theorem head?_dropBlankEnd_dropWhile (s : List Char) :
    (dropBlankEnd (s.dropWhile isBlank)).head?.any isBlank = false := by
  cases h : s.dropWhile isBlank with
  | nil => rfl
  | cons c r =>
    have hc : isBlank c = false := by
      have := List.head?_dropWhile_not isBlank s
      rw [h] at this
      simpa using this
    rw [dropBlankEnd_cons_of_not_blank hc]
    simpa using hc

theorem getLast?_dropBlankEnd (s : List Char) : (dropBlankEnd s).getLast?.any isBlank = false := by
  have h := dropBlankEnd_dropBlankEnd s
  rcases List.eq_nil_or_concat (dropBlankEnd s) with hs | ⟨front, c, hs⟩
  · rw [hs]
    rfl
  · cases hc : isBlank c with
    | false => simp [hs, hc]
    | true =>
      rw [hs, List.concat_eq_append, dropBlankEnd_append_of_blank hc] at h
      have hlen := (dropBlankEnd_isPrefix front).length_le
      rw [h, List.length_append, List.length_singleton] at hlen
      omega

theorem trimChars_append_of_not_blank (hc : isBlank c = false) :
    trimChars (s ++ [c]) = s.dropWhile isBlank ++ [c] := by
  unfold trimChars
  rw [List.dropWhile_append]
  split
  · next hempty =>
    rw [List.isEmpty_iff.1 hempty, List.dropWhile_cons, hc]
    exact dropBlankEnd_append_of_not_blank (s := []) hc
  · exact dropBlankEnd_append_of_not_blank hc

/-- A text that ends in something other than white space keeps it, whatever follows. -/
theorem dropBlankEnd_append (s t : List Char) (h : dropBlankEnd s = s) :
    dropBlankEnd (s ++ t) = s ++ dropBlankEnd t := by
  rcases List.eq_nil_or_concat s with rfl | ⟨front, c, rfl⟩
  · rfl
  · have hc : isBlank c = false := by
      have hlast := getLast?_dropBlankEnd (front.concat c)
      rw [h, List.concat_eq_append, List.getLast?_append] at hlast
      simpa using hlast
    rw [List.concat_eq_append]
    clear h
    induction front with
    | nil => exact dropBlankEnd_cons_of_not_blank hc
    | cons d front ih =>
      rw [List.cons_append, List.cons_append, dropBlankEnd, ih]
      cases front <;> rfl

/-- White space before a text is trimmed away. -/
theorem trimChars_append_of_all_blank {space : List Char} (h : space.all isBlank = true) :
    trimChars (space ++ s) = trimChars s := by
  rw [trimChars, List.dropWhile_append_of_pos (List.all_eq_true.1 h), ← trimChars]

/-- What stands behind a trimmed text loses its end only. -/
theorem trimChars_append (t : List Char) (hs : trimChars s = s) (hne : s ≠ []) :
    trimChars (s ++ t) = s ++ dropBlankEnd t := by
  have hhead := head?_dropBlankEnd_dropWhile s
  rw [← trimChars, hs] at hhead
  obtain ⟨c, r, rfl⟩ := List.exists_cons_of_ne_nil hne
  have hc : ¬ isBlank c = true := by simpa using hhead
  unfold trimChars at hs ⊢
  rw [List.dropWhile_cons, if_neg hc] at hs
  rw [List.cons_append, List.dropWhile_cons, if_neg hc, ← List.cons_append,
    dropBlankEnd_append _ _ hs]

/-- A trimmed text starts with the first character that is not blank. -/
theorem head?_trimChars (s : List Char) : (trimChars s).head? = s.find? (!isBlank ·) := by
  induction s with
  | nil => rfl
  | cons c s ih =>
    cases hc : isBlank c with
    | true => simpa [trimChars, hc] using ih
    | false => simp [trimChars, hc, dropBlankEnd_cons_of_not_blank]

/-- Trimming changes nothing that white space before and behind a text does not change. -/
theorem apply_trimChars {β : Sort*} (f : List Char → β)
    (hstart : ∀ c s, isBlank c = true → f (c :: s) = f s)
    (hend : ∀ c s, isBlank c = true → f (s ++ [c]) = f s) (s : List Char) :
    f (trimChars s) = f s := by
  have hdropEnd (t : List Char) : f (dropBlankEnd t) = f t := by
    induction t using List.reverseRecOn with
    | nil => rfl
    | append_singleton t c ih =>
      cases hc : isBlank c with
      | true => rw [dropBlankEnd_append_of_blank hc, ih, hend c t hc]
      | false => rw [dropBlankEnd_append_of_not_blank hc]
  rw [trimChars, hdropEnd]
  induction s with
  | nil => rfl
  | cons c s ih =>
    cases hc : isBlank c with
    | true => rw [List.dropWhile_cons_of_pos hc, ih, hstart c s hc]
    | false => rw [List.dropWhile_cons_of_neg (by simp [hc])]

@[simp] theorem trimChars_trimChars (s : List Char) : trimChars (trimChars s) = trimChars s :=
  trimChars_eq_self (head?_dropBlankEnd_dropWhile s) (getLast?_dropBlankEnd _)

end

/-! ## Blank pieces -/

section

variable {sep : Char} (s : List Char)

/-- Which pieces of `c :: s` are blank hangs on `s` only through the answer for `s`. -/
theorem map_all_splitOn_cons (c : Char) :
    ((c :: s).splitOn sep).map (·.all isBlank) =
      if c = sep then true :: (s.splitOn sep).map (·.all isBlank)
      else ((s.splitOn sep).map (·.all isBlank)).modifyHead (isBlank c && ·) := by
  rw [List.splitOn_cons_eq_if_modifyHead]
  by_cases hc : c = sep
  · simp [hc]
  · rw [if_neg (by simpa using hc), if_neg hc]
    cases s.splitOn sep <;> simp

theorem map_all_splitOn_dropWhile (hsep : isBlank sep = false) :
    ((s.dropWhile isBlank).splitOn sep).map (·.all isBlank) =
      (s.splitOn sep).map (·.all isBlank) := by
  induction s with
  | nil => rfl
  | cons c s ih =>
    rw [List.dropWhile_cons]
    cases hc : isBlank c with
    | false => rfl
    | true =>
      have hne : c ≠ sep := by
        rintro rfl
        rw [hc] at hsep
        exact Bool.noConfusion hsep
      rw [if_pos rfl, ih, map_all_splitOn_cons, if_neg hne, hc]
      cases s.splitOn sep <;> simp

theorem map_all_splitOn_dropBlankEnd (hsep : isBlank sep = false) :
    ((dropBlankEnd s).splitOn sep).map (·.all isBlank) = (s.splitOn sep).map (·.all isBlank) := by
  induction s with
  | nil => rfl
  | cons c s ih =>
    rw [map_all_splitOn_cons, ← ih, dropBlankEnd]
    cases h : dropBlankEnd s with
    | cons d t => exact map_all_splitOn_cons (d :: t) c
    | nil =>
      cases hc : isBlank c with
      | false => rw [if_neg Bool.false_ne_true, map_all_splitOn_cons, hc]
      | true =>
        have hne : c ≠ sep := by
          rintro rfl
          rw [hc] at hsep
          exact Bool.noConfusion hsep
        simp [hne]

/-- Trimming a text changes nothing about which of its pieces are blank. -/
theorem map_all_splitOn_trimChars (hsep : isBlank sep = false) :
    ((trimChars s).splitOn sep).map (·.all isBlank) = (s.splitOn sep).map (·.all isBlank) := by
  rw [trimChars, map_all_splitOn_dropBlankEnd _ hsep, map_all_splitOn_dropWhile _ hsep]

end

end Extractor.Text
