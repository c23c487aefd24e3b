import Extractor.Proofs.Text.Literal
import Extractor.Template.Expression
/-!
# Escaped paths

The path of a look-up stands in a literal of the emitted code. Four replacements, the one of the
backslash first, write it there as one pass over its characters does, since none of them finds anything
in what the others put in. The literal denotes the path and nothing in it ends the literal, so
different paths have different look-ups (`escape_denotes`).
-/

namespace Extractor.Text

/-- The text with another one in the place of each occurrence of a character. -/
def replaceEach (old : Char) (new s : String) : String :=
  String.ofList (s.toList.flatMap fun c => if c = old then new.toList else [c])

/-- Escapes in passes over the whole text. -/
def escapeInPasses (s : String) : String :=
  replaceEach '\t' "\\t" (replaceEach '\n' "\\n" (replaceEach '"' "\\\"" (replaceEach '\\' "\\\\" s)))

section

variable {c : Char} {s before after : List Char}

theorem replaceEach_append (old : Char) (new s t : String) :
    replaceEach old new (s ++ t) = replaceEach old new s ++ replaceEach old new t := by
  rw [← String.toList_inj]
  simp [replaceEach]

theorem escapeInPasses_append (s t : String) :
    escapeInPasses (s ++ t) = escapeInPasses s ++ escapeInPasses t := by
  simp only [escapeInPasses, replaceEach_append]

/-- No pass finds a character that an earlier one put in. -/
theorem escapeInPasses_singleton (c : Char) :
    (escapeInPasses (String.ofList [c])).toList = escapeChar c := by
  unfold escapeChar
  split
  · decide +kernel
  · decide +kernel
  · decide +kernel
  · decide +kernel
  · next hbackslash hquote hbreak htab =>
    simp [escapeInPasses, replaceEach, if_neg hbackslash, if_neg hquote, if_neg hbreak,
      if_neg htab]

theorem toList_escapeInPasses (s : List Char) :
    (escapeInPasses (String.ofList s)).toList = s.flatMap escapeChar := by
  induction s with
  | nil => decide +kernel
  | cons c s ih =>
    have hcons : String.ofList (c :: s) = String.ofList [c] ++ String.ofList s := by
      rw [← String.ofList_append, List.singleton_append]
    rw [hcons, escapeInPasses_append, String.toList_append, escapeInPasses_singleton, ih,
      List.flatMap_cons]

/-- **Escaping in passes is escaping letter by letter.** -/
theorem escape_eq_escapeInPasses (s : String) : escape s = escapeInPasses s := by
  rw [← String.toList_inj, toList_escape, ← toList_escapeInPasses, String.ofList_toList]

theorem not_mem_escapeChar (c : Char) : '\n' ∉ escapeChar c ∧ '\t' ∉ escapeChar c := by
  unfold escapeChar
  split
  · decide
  · decide
  · decide
  · decide
  · next hbreak htab => simp [Ne.symm hbreak, Ne.symm htab]

theorem not_mem_escape (s : List Char) :
    '\n' ∉ s.flatMap escapeChar ∧ '\t' ∉ s.flatMap escapeChar := by
  simp [List.mem_flatMap, not_mem_escapeChar]

/-- A quote in an escaped text stands behind the backslash that it is escaped with. -/
theorem exists_of_quote (h : s.flatMap escapeChar = before ++ '"' :: after) :
    ∃ t u, s = t ++ '"' :: u ∧ before = t.flatMap escapeChar ++ ['\\'] ∧
      after = u.flatMap escapeChar := by
  induction s generalizing before with
  | nil => simp at h
  | cons c s ih =>
    rw [List.flatMap_cons] at h
    rcases escapeChar_cases c with ⟨l, hescape, hl⟩ | ⟨hescape, -, hquote, -⟩
    · rw [hescape, List.cons_append, List.singleton_append] at h
      match before, h with
      | [], h => simp at h
      | [d], h =>
        simp only [List.cons_append, List.nil_append, List.cons.injEq] at h
        obtain ⟨rfl, rfl, rfl⟩ := h
        cases hl
        exact ⟨[], s, rfl, rfl, rfl⟩
      | d :: e :: others, h =>
        simp only [List.cons_append, List.cons.injEq] at h
        obtain ⟨rfl, rfl, h⟩ := h
        obtain ⟨t, u, rfl, rfl, rfl⟩ := ih h
        exact ⟨c :: t, u, rfl, by simp [hescape], rfl⟩
    · rw [hescape, List.singleton_append] at h
      cases before with
      | nil => exact absurd (List.cons.inj h).1 hquote
      | cons d others =>
        obtain ⟨rfl, hothers⟩ := List.cons.inj h
        obtain ⟨t, u, rfl, rfl, rfl⟩ := ih hothers
        exact ⟨c :: t, u, rfl, by simp [hescape], rfl⟩

end

theorem escape_inj {s t : String} : escape s = escape t ↔ s = t := by
  refine ⟨fun h => ?_, congrArg escape⟩
  have hs := readLiteral?_escape s.toList []
  rw [← toList_escape, h, toList_escape, readLiteral?_escape] at hs
  exact (String.toList_inj.1 (Prod.mk.inj (Option.some.inj hs)).1).symm

theorem lookup_inj {path other : String} :
    Template.lookup path = Template.lookup other ↔ path = other := by
  refine ⟨fun h => ?_, congrArg Template.lookup⟩
  rw [← String.toList_inj] at h
  simp only [Template.lookup, String.toList_append, toList_literalOf, List.append_assoc,
    List.append_cancel_left_eq, List.append_cancel_right_eq] at h
  exact escape_inj.1 (String.toList_inj.1 h)

/-- **An escaped text denotes the text.** It is what the four replacements give, it is read back
whatever follows the quote behind it, and has no line break, no tab and no quote that is not escaped.
So different texts are escaped differently, and different paths are looked up differently. -/
theorem escape_denotes (s : String) :
    (∀ rest, readLiteral? ((escape s).toList ++ '"' :: rest) = some (s.toList, rest)) ∧
    '\n' ∉ (escape s).toList ∧ '\t' ∉ (escape s).toList ∧
    (∀ before after, (escape s).toList = before ++ '"' :: after →
      ∃ t u : String, s = t ++ "\"" ++ u ∧ before = (escape t).toList ++ ['\\'] ∧
        after = (escape u).toList) ∧
    escape s = escapeInPasses s ∧
    ∀ other, (escape s = escape other ↔ s = other) ∧
      (Template.lookup s = Template.lookup other ↔ s = other) := by
  rw [toList_escape]
  refine ⟨readLiteral?_escape s.toList, (not_mem_escape _).1, (not_mem_escape _).2, ?_,
    escape_eq_escapeInPasses s, fun other => ⟨escape_inj, lookup_inj⟩⟩
  intro before after h
  obtain ⟨t, u, hs, rfl, rfl⟩ := exists_of_quote h
  refine ⟨String.ofList t, String.ofList u, ?_, by simp, by simp⟩
  rw [← String.toList_inj, hs]
  simp

/-- A backslash, a quote and a line break: every escape starts with a backslash of its own. -/
theorem escape_denotes_mixed :
    (escape "\\\"\n").toList = ['\\', '\\', '\\'] ++ '"' :: ['\\', 'n'] ∧
      ∃ t u : String, "\\\"\n" = t ++ "\"" ++ u ∧
        ['\\', '\\', '\\'] = (escape t).toList ++ ['\\'] ∧ ['\\', 'n'] = (escape u).toList := by
  have hescape : (escape "\\\"\n").toList = ['\\', '\\', '\\'] ++ '"' :: ['\\', 'n'] := by
    decide +kernel
  obtain ⟨-, -, -, hquote, -⟩ := escape_denotes "\\\"\n"
  exact ⟨hescape, hquote _ _ hescape⟩

end Extractor.Text
