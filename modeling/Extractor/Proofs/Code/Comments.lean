import Extractor.Parser.Entry
import Extractor.Proofs.Code.Guard
import Extractor.Proofs.Text.Trimmed
/-!
# Comments in a guard

A line comment ends with its line. The lines of a guard are joined, so that the first comment in them
reaches to the end of the guard: of its code it leaves what stands before it, and hides the bracket
that closes the condition (`uncommented_guard`). A condition without comments is kept word by word.

Code is not read any further for this: every comment mark counts, which is what the emitted code means
as long as none stands inside a literal.
-/

namespace Extractor

namespace Text

/-- What starts a comment to the end of the line. -/
def commentMark : List Char := ['/', '/']

/-- The text before its first comment. -/
def beforeComment (text : List Char) : List Char :=
  match breakAt? commentMark text with
  | some (code, _) => code
  | none => text

/-- The text with every line up to its comment. -/
def uncommented (text : List Char) : List Char :=
  ['\n'].intercalate ((text.splitOn '\n').map beforeComment)

/-- The parts of a text between white space. -/
def words (text : List Char) : List (List Char) := (text.splitOnP isBlank).filter (· ≠ [])

/-- The text without its white space. -/
def unspaced (text : List Char) : List Char := text.filter (!isBlank ·)

section

variable {c : Char} {s t text before after line : List Char} {lines : List (List Char)}

/-! ## Words -/

theorem words_append_cons (hc : isBlank c = true) (s t : List Char) :
    words (s ++ c :: t) = words s ++ words t := by
  rw [words, List.splitOnP_append_cons s t hc, List.filter_append, ← words, ← words]

theorem words_cons (hc : isBlank c = true) (s : List Char) : words (c :: s) = words s := by
  have h := words_append_cons hc [] s
  simpa [words] using h

theorem words_concat (hc : isBlank c = true) (s : List Char) : words (s ++ [c]) = words s := by
  have h := words_append_cons hc s []
  simpa [words] using h

@[simp] theorem words_trimChars (s : List Char) : words (trimChars s) = words s :=
  apply_trimChars words (fun _ s hc => words_cons hc s) (fun _ s hc => words_concat hc s) s

theorem flatten_words (s : List Char) : (words s).flatten = unspaced s := by
  rw [words, List.flatten_filter_ne_nil, unspaced]
  induction s with
  | nil => rfl
  | cons c s ih =>
    rw [List.splitOnP_cons_eq_if_modifyHead]
    cases hc : isBlank c with
    | true => simp [hc, ih]
    | false =>
      obtain ⟨first, rest, hsplit⟩ := List.exists_cons_of_ne_nil (List.splitOnP_ne_nil isBlank s)
      rw [hsplit, List.flatten_cons] at ih
      simp [hc, hsplit, ih]

/-! ## The first comment -/

theorem beforeComment_of_firstAt (h : FirstAt commentMark text before after) :
    beforeComment text = before := by
  rw [beforeComment, breakAt?_eq_some_iff.2 h]

theorem beforeComment_eq_self (h : ¬ commentMark <:+: text) : beforeComment text = text := by
  rw [beforeComment, breakAt?_eq_none_iff.2 h]

theorem beforeComment_append_cons (hc : c ≠ '/') (s t : List Char) :
    beforeComment (s ++ c :: t) =
      if commentMark <:+: s then beforeComment s else s ++ c :: beforeComment t := by
  have hne : commentMark ≠ [] := List.cons_ne_nil _ _
  have hmark : c ∉ commentMark := by simpa [commentMark] using hc
  split_ifs with hs
  · obtain ⟨before, after, hfirst⟩ := exists_firstAt hs
    rw [beforeComment_of_firstAt hfirst, beforeComment_of_firstAt (hfirst.append hne (c :: t))]
  · by_cases ht : commentMark <:+: t
    · obtain ⟨before, after, hfirst⟩ := exists_firstAt ht
      rw [beforeComment_of_firstAt hfirst, beforeComment_of_firstAt (hfirst.prepend hne hmark hs)]
    · have hnone : ¬ commentMark <:+: s ++ c :: t := by
        rw [infix_append_cons_iff hmark hne]
        exact not_or.2 ⟨hs, ht⟩
      rw [beforeComment_eq_self hnone, beforeComment_eq_self ht]

/-! ## Joined lines -/

/-- The words of a text before its first comment. -/
def codeWords (text : List Char) : List (List Char) := words (beforeComment text)

theorem ne_slash_of_blank (hc : isBlank c = true) : c ≠ '/' := by
  rintro rfl
  exact absurd hc (by decide)

theorem infix_append_blank (hc : isBlank c = true) (s t : List Char) :
    commentMark <:+: s ++ c :: t ↔ commentMark <:+: s ∨ commentMark <:+: t :=
  infix_append_cons_iff (by simpa [commentMark] using ne_slash_of_blank hc) (List.cons_ne_nil _ _)

theorem codeWords_append_cons (hc : isBlank c = true) (s t : List Char) :
    codeWords (s ++ c :: t) =
      if commentMark <:+: s then codeWords s else words s ++ codeWords t := by
  rw [codeWords, beforeComment_append_cons (ne_slash_of_blank hc)]
  split_ifs with h
  · rfl
  · exact words_append_cons hc s _

theorem codeWords_eq_words (h : ¬ commentMark <:+: s) : codeWords s = words s := by
  rw [codeWords, beforeComment_eq_self h]

theorem not_comment_nil : ¬ commentMark <:+: [] := by decide

@[simp] theorem codeWords_trimChars (s : List Char) : codeWords (trimChars s) = codeWords s := by
  refine apply_trimChars codeWords (fun c s hc => ?_) (fun c s hc => ?_) s
  · exact (codeWords_append_cons hc [] s).trans (if_neg not_comment_nil)
  · rw [codeWords_append_cons hc]
    split_ifs with h
    · rfl
    · rw [codeWords_eq_words h]
      exact List.append_nil _

theorem comment_trimChars (s : List Char) :
    commentMark <:+: trimChars s ↔ commentMark <:+: s := by
  refine iff_of_eq (apply_trimChars (commentMark <:+: ·) (fun c s hc => ?_) (fun c s hc => ?_) s)
  · exact propext ((infix_append_blank hc [] s).trans (or_iff_right not_comment_nil))
  · exact propext ((infix_append_blank hc s []).trans (or_iff_left not_comment_nil))

theorem codeWords_intercalate_cons (hc : isBlank c = true) (line : List Char)
    (lines : List (List Char)) : codeWords ([c].intercalate (line :: lines)) =
      if commentMark <:+: line then codeWords line
      else words line ++ codeWords ([c].intercalate lines) := by
  cases lines with
  | nil =>
    rw [List.intercalate_singleton]
    split_ifs with h
    · rfl
    · rw [codeWords_eq_words h]
      exact (List.append_nil _).symm
  | cons next lines =>
    rw [List.intercalate_cons_cons, List.append_assoc, List.singleton_append,
      codeWords_append_cons hc]

/-- Joining lines that were trimmed keeps the words up to the first comment. -/
theorem codeWords_joined (lines : List (List Char)) :
    codeWords ([' '].intercalate ((lines.map trimChars).filter (· ≠ []))) =
      codeWords (['\n'].intercalate lines) := by
  induction lines with
  | nil => rfl
  | cons line lines ih =>
    rw [codeWords_intercalate_cons (by decide), List.map_cons]
    by_cases hblank : trimChars line = []
    · have hcomment : ¬ commentMark <:+: line := by
        rw [← comment_trimChars, hblank]
        exact not_comment_nil
      have hwords : words line = [] := by
        rw [← words_trimChars, hblank]
        rfl
      rw [List.filter_cons_of_neg (by simpa using hblank), ih, if_neg hcomment, hwords,
        List.nil_append]
    · rw [List.filter_cons_of_pos (by simpa using hblank), codeWords_intercalate_cons (by decide), ih]
      simp only [comment_trimChars, codeWords_trimChars, words_trimChars]

/-! ## Comments of all lines -/

theorem beforeComment_intercalate_isPrefix (lines : List (List Char)) :
    beforeComment (['\n'].intercalate lines) <+: ['\n'].intercalate (lines.map beforeComment) := by
  induction lines with
  | nil => exact List.nil_prefix
  | cons line lines ih =>
    cases lines with
    | nil => rw [List.map_singleton, List.intercalate_singleton, List.intercalate_singleton]
    | cons next lines =>
      rw [List.map_cons, List.map_cons, List.intercalate_cons_cons, List.intercalate_cons_cons,
        List.append_assoc, List.singleton_append, beforeComment_append_cons (by decide)]
      split_ifs with h
      · rw [List.append_assoc]
        exact List.prefix_append _ _
      · rw [beforeComment_eq_self h, List.append_assoc, List.singleton_append]
        exact (List.prefix_append_right_inj line).2 (List.cons_prefix_cons.2 ⟨rfl, ih⟩)

theorem beforeComment_isPrefix (s : List Char) : beforeComment s <+: uncommented s := by
  have h := beforeComment_intercalate_isPrefix (s.splitOn '\n')
  rwa [List.intercalate_splitOn] at h

theorem uncommented_eq_self (h : ¬ commentMark <:+: s) : uncommented s = s := by
  have hline : ∀ line ∈ s.splitOn '\n', beforeComment line = line := fun line hline => by
    have hinfix : line <:+: ['\n'].intercalate (s.splitOn '\n') := infix_intercalate hline
    rw [List.intercalate_splitOn] at hinfix
    exact beforeComment_eq_self fun hcomment => h (hcomment.trans hinfix)
  rw [uncommented, List.map_congr_left hline, List.map_id', List.intercalate_splitOn]

theorem uncommented_line (h : '\n' ∉ s) : uncommented s = beforeComment s := by
  rw [uncommented, List.splitOn_eq_singleton h, List.map_singleton, List.intercalate_singleton]

end

end Text

namespace Stmt

open Text

/-- A guard has the words of its text up to the first comment. -/
theorem words_uncommented_oneLine (text : String) :
    words (uncommented (oneLine text).toList) = words (beforeComment text.toList) := by
  have h := codeWords_joined (text.toList.splitOn '\n')
  rw [List.intercalate_splitOn] at h
  rw [uncommented_line (not_mem_oneLine text), toList_oneLine]
  exact h

theorem beforeComment_guard (condition : List Char) :
    beforeComment ("if (".toList ++ (condition ++ [')'])) =
      "if (".toList ++
        if commentMark <:+: condition then beforeComment condition else condition ++ [')'] := by
  have hopen (rest : List Char) : "if (".toList ++ rest = "if ".toList ++ '(' :: rest := by
    have hsplit : "if (".toList = "if ".toList ++ ['('] := by decide +kernel
    rw [hsplit, List.append_assoc, List.singleton_append]
  have hstart : ¬ commentMark <:+: "if ".toList := by decide +kernel
  rw [hopen, hopen, beforeComment_append_cons (by decide), if_neg hstart,
    beforeComment_append_cons (by decide)]
  rfl

/-- **A comment in a condition reaches to the end of the guard.** The guard is one line, and without
its comment it has the words of the condition between its brackets up to the first comment. So it keeps
the code of a condition that has no comment, white space apart, and loses some of any other one, the
closing bracket at least. -/
theorem uncommented_guard (condition : String) :
    ∃ guard, (Stmt.onlyIf condition Parser.appendEntry).lines = [guard, Parser.appendEntry] ∧
      words (uncommented guard.toList) =
        words (beforeComment ("if (" ++ condition ++ ")").toList) ∧
      (¬ commentMark <:+: condition.toList → words (uncommented guard.toList) =
        words ("if (".toList ++ (uncommented condition.toList ++ [')']))) ∧
      (commentMark <:+: condition.toList → unspaced (uncommented guard.toList) ≠
        unspaced ("if (".toList ++ (uncommented condition.toList ++ [')']))) := by
  have hwords := words_uncommented_oneLine ("if (" ++ condition ++ ")")
  have htext : ("if (" ++ condition ++ ")").toList =
      "if (".toList ++ (condition.toList ++ [')']) := by
    simp
  refine ⟨oneLine ("if (" ++ condition ++ ")"), ?_, hwords, fun hnone => ?_, fun hcomment => ?_⟩
  · have happend : codeLines Parser.appendEntry = [Parser.appendEntry] := by decide +kernel
    rw [onlyIf, lines, happend]
  · rw [hwords, htext, beforeComment_guard, if_neg hnone, uncommented_eq_self hnone]
  · rw [← flatten_words, hwords, flatten_words, htext, beforeComment_guard, if_pos hcomment]
    intro heq
    have hlength := congrArg List.length heq
    have hle := ((beforeComment_isPrefix condition.toList).filter (!isBlank ·)).length_le
    have hbracket : unspaced [')'] = [')'] := by decide
    simp only [unspaced, List.filter_append, List.length_append] at hlength hle hbracket
    rw [hbracket, List.length_singleton] at hlength
    omega

/-- A condition with a comment on the first of its lines. -/
def remarked : String := "a // why\n&& b"

/-- A condition on two lines is kept, and one with a comment loses its second line. -/
theorem uncommented_guard_remarked :
    (∃ guard, (Stmt.onlyIf "a &&\n    b" Parser.appendEntry).lines = [guard, Parser.appendEntry] ∧
      words (uncommented guard.toList) =
        words ("if (".toList ++ (uncommented "a &&\n    b".toList ++ [')']))) ∧
    ∃ guard, (Stmt.onlyIf remarked Parser.appendEntry).lines = [guard, Parser.appendEntry] ∧
      unspaced (uncommented guard.toList) ≠
        unspaced ("if (".toList ++ (uncommented remarked.toList ++ [')'])) := by
  obtain ⟨guard, hlines, -, hkept, -⟩ := uncommented_guard "a &&\n    b"
  obtain ⟨guard', hlines', -, -, hlost⟩ := uncommented_guard remarked
  exact ⟨⟨guard, hlines, hkept (by decide +kernel)⟩, guard', hlines', hlost (by decide +kernel)⟩

/-- **A guard need not keep the code of its condition**, even if there is no literal in it. -/
theorem uncommented_guard_not_kept :
    ¬ ∀ condition guard : String, '"' ∉ condition.toList →
      (Stmt.onlyIf condition Parser.appendEntry).lines = [guard, Parser.appendEntry] →
      unspaced (uncommented guard.toList) =
        unspaced ("if (".toList ++ (uncommented condition.toList ++ [')'])) := by
  intro h
  have hguard := h remarked "if (a // why && b)" (by decide +kernel) (by decide +kernel)
  revert hguard
  decide +kernel

end Stmt

end Extractor
