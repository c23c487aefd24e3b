import Extractor.Proofs.Code.Depth
import Mathlib.Data.List.Zip
/-!
# Keywords of guards

A line is taken for a guard because of a keyword that stands in it as a word of its own, with one
exception: `else if` counts also where `else` ends a longer word and `if` starts one
(`isOpenGuard_keyword`). Lines without either are put where their braces put them.
-/

namespace Extractor

namespace Text

/-- The word stands in the text, and is not part of a longer one there. -/
def StandsAlone (word text : List Char) : Prop :=
  ∃ before after, text = before ++ word ++ after ∧
    (∀ c ∈ before.getLast?, isWordChar c = false) ∧ ∀ c ∈ after.head?, isWordChar c = false

/-- The words stand in the text, the first as the end of a longer one and the last as the start of a
longer one. -/
def StandsInside (words text : List Char) : Prop :=
  ∃ before after c d, text = before ++ [c] ++ words ++ d :: after ∧
    isWordChar c = true ∧ isWordChar d = true

theorem StandsInside.isInfix {words text : List Char} (h : StandsInside words text) :
    words <:+: text := by
  obtain ⟨before, after, c, d, rfl, -, -⟩ := h
  exact List.infix_append _ _ _

/-- A word character by the list of ranges, which evaluates better than the array. -/
def isListed (c : Char) : Bool :=
  c == '_' || wordRanges.toList.any fun (first, last) => first ≤ c.toNat && c.toNat ≤ last

theorem isListed_eq (c : Char) : isListed c = isWordChar c := by
  rw [isListed, isWordChar, Stmt.isAlphanumeric_eq]

-- Only the neighbours are looked up (`any`): that all characters of an option are of some kind would
-- be decided by a run through all characters that there are.
instance (word text : List Char) : Decidable (StandsAlone word text) :=
  decidable_of_iff
    (∃ cut ∈ text.inits.zip text.tails, word <+: cut.2 ∧
      cut.1.getLast?.any isListed = false ∧
      (cut.2.drop word.length).head?.any isListed = false) <| by
    simp only [Option.any_eq_false, isListed_eq]
    constructor
    · rintro ⟨⟨before, rest⟩, hcut, ⟨after, rfl⟩, hbefore, hafter⟩
      rw [List.mem_zip_inits_tails] at hcut
      rw [List.drop_left] at hafter
      exact ⟨before, after, by rw [← hcut, List.append_assoc], hbefore, hafter⟩
    · rintro ⟨before, after, rfl, hbefore, hafter⟩
      refine ⟨(before, word ++ after), ?_, List.prefix_append _ _, hbefore, ?_⟩
      · rw [List.mem_zip_inits_tails, List.append_assoc]
      · rwa [List.drop_left]

end Text

namespace Layout

open Text

/-- The words that make a line a guard. -/
def keywords : List String := ["if", "while", "for", "else"]

/-- One of the keywords stands in the line as a word of its own. -/
def HasKeyword (line : List Char) : Prop := ∃ keyword ∈ keywords, StandsAlone keyword.toList line

instance (line : List Char) : Decidable (HasKeyword line) :=
  inferInstanceAs (Decidable (∃ keyword ∈ keywords, StandsAlone keyword.toList line))

/-- What the braces of a line say about the indentation of the lines behind it. -/
def State.nextByBraces (s : State) (line : List Char) : State :=
  ⟨s.depthOf line, s.owed, opensBlock line⟩

section

variable {keyword : String} {line : List Char} {lines : List (List Char)} {s : State}

/-! ## Where the words stand -/

theorem startsWithWord_iff : startsWithWord keyword line = true ↔
    ∃ after, line = keyword.toList ++ after ∧ ∀ c ∈ after.head?, isWordChar c = false := by
  unfold startsWithWord
  constructor
  · intro h
    split at h
    · next hprefix =>
      exact ⟨[], isPrefixOf?_eq_some_iff.1 hprefix, fun c hc => nomatch hc⟩
    · next c rest hprefix =>
      refine ⟨c :: rest, isPrefixOf?_eq_some_iff.1 hprefix, fun d hd => ?_⟩
      cases hd
      simpa using h
    · cases h
  · rintro ⟨after, rfl, hafter⟩
    rw [isPrefixOf?_append]
    cases after with
    | nil => rfl
    | cons c after => simp [hafter c rfl]

theorem endsWithWord_iff : endsWithWord keyword line = true ↔
    ∃ before, line = before ++ keyword.toList ∧ ∀ c ∈ before.getLast?, isWordChar c = false := by
  unfold endsWithWord
  constructor
  · intro h
    split at h
    · next before hsuffix =>
      refine ⟨before, isSuffixOf?_eq_some_iff.1 hsuffix, fun c hc => ?_⟩
      rw [hc] at h
      simpa using h
    · cases h
  · rintro ⟨before, rfl, hbefore⟩
    rw [isSuffixOf?_eq_some_iff.2 rfl]
    show (!before.getLast?.any isWordChar) = true
    cases hlast : before.getLast? with
    | none => rfl
    | some c => simp [hbefore c hlast]

theorem standsAlone_of_startsWithWord (h : startsWithWord keyword line = true) :
    StandsAlone keyword.toList line := by
  obtain ⟨after, hline, hafter⟩ := startsWithWord_iff.1 h
  refine ⟨[], after, by rw [hline, List.nil_append], fun c hc => ?_, hafter⟩
  exact absurd hc (Option.not_mem_none c)

theorem standsAlone_of_endsWithWord (h : endsWithWord keyword line = true) :
    StandsAlone keyword.toList line := by
  obtain ⟨before, hline, hbefore⟩ := endsWithWord_iff.1 h
  refine ⟨before, [], by rw [hline, List.append_nil], hbefore, fun c hc => ?_⟩
  exact absurd hc (Option.not_mem_none c)

/-- The space between the two words ends the first and starts the second, so a character of a longer
word stands on either side of them if neither is a word of its own. -/
theorem standsAlone_or_standsInside (h : "else if".toList <:+: line) :
    StandsAlone "else".toList line ∨ StandsAlone "if".toList line ∨
      StandsInside "else if".toList line := by
  obtain ⟨before, after, rfl⟩ := h
  have hwords : "else if".toList = "else".toList ++ ' ' :: "if".toList := by decide
  have hspace := Stmt.isWordChar_space
  by_cases hbefore : ∀ c ∈ before.getLast?, isWordChar c = false
  · refine .inl ⟨before, ' ' :: ("if".toList ++ after), ?_, hbefore, ?_⟩
    · simp [hwords]
    · rintro c ⟨⟩
      exact hspace
  by_cases hafter : ∀ c ∈ after.head?, isWordChar c = false
  · refine .inr (.inl ⟨before ++ "else".toList ++ [' '], after, ?_, ?_, hafter⟩)
    · simp [hwords]
    · intro c hc
      rw [List.getLast?_concat] at hc
      cases hc
      exact hspace
  · simp only [not_forall, Bool.not_eq_false] at hbefore hafter
    obtain ⟨c, hc, hcword⟩ := hbefore
    obtain ⟨d, hd, hdword⟩ := hafter
    obtain ⟨front, rfl⟩ := List.getLast?_eq_some_iff.1 hc
    obtain ⟨rest, rfl⟩ := List.head?_eq_some_iff.1 hd
    exact .inr (.inr ⟨front, rest, c, d, rfl, hcword, hdword⟩)

/-! ## One line -/

theorem hasKeyword_or_standsInside (h : isOpenGuard line = true) :
    HasKeyword line ∨ StandsInside "else if".toList line := by
  simp only [isOpenGuard, Bool.and_eq_true, Bool.or_eq_true] at h
  rcases h.2 with (((hif | hwhile) | hfor) | helseIf) | helse
  · exact .inl ⟨"if", by decide, standsAlone_of_startsWithWord hif⟩
  · exact .inl ⟨"while", by decide, standsAlone_of_startsWithWord hwhile⟩
  · exact .inl ⟨"for", by decide, standsAlone_of_startsWithWord hfor⟩
  · rcases standsAlone_or_standsInside (occursIn_iff.1 helseIf) with helse | hif | hinside
    · exact .inl ⟨"else", by decide, helse⟩
    · exact .inl ⟨"if", by decide, hif⟩
    · exact .inr hinside
  · exact .inl ⟨"else", by decide, standsAlone_of_endsWithWord helse⟩

theorem isOpenGuard_of_standsInside (h : StandsInside "else if".toList line) :
    isOpenGuard line = !(isComment line || opensBlock line || [';'].isSuffixOf line) := by
  have hoccurs : occursIn "else if".toList line = true := occursIn_iff.2 h.isInfix
  have hempty : line.isEmpty = false := by
    rw [List.isEmpty_eq_false_iff]
    rintro rfl
    exact absurd h.isInfix (by decide)
  rw [isOpenGuard, hoccurs, hempty, Bool.or_true, Bool.true_or, Bool.and_true, Bool.false_or]

/-! ## All lines -/

theorem next_eq_nextByBraces (hguard : isOpenGuard line = false) (howed : s.owed = 0) :
    s.next line = s.nextByBraces line := by
  simp [State.next, State.nextByBraces, hguard, howed]

/-- Where no line is a guard, nothing is ever owed to one. -/
theorem foldl_next_eq_nextByBraces (hguards : ∀ line ∈ lines, isOpenGuard line = false)
    (howed : s.owed = 0) : lines.foldl State.next s = lines.foldl State.nextByBraces s := by
  induction lines generalizing s with
  | nil => rfl
  | cons line lines ih =>
    obtain ⟨hline, hothers⟩ := List.forall_mem_cons.1 hguards
    rw [List.foldl_cons, List.foldl_cons, next_eq_nextByBraces hline howed]
    exact ih hothers howed

theorem indentFrom_byBraces (unit : Nat) (hguards : ∀ line ∈ lines, isOpenGuard line = false)
    (howed : s.owed = 0) : indentFrom unit s lines = lines.mapIdx fun i line =>
      indentLine unit (((lines.take i).foldl State.nextByBraces s).depthOf line) line := by
  rw [indentFrom_eq_mapIdx]
  congr 1
  funext i line
  rw [foldl_next_eq_nextByBraces (fun line hline => hguards line (List.mem_of_mem_take hline)) howed]

end

/-- **A guard has a keyword.** A line that is taken for a guard has one of the keywords as a word of
its own, or `else if` with longer words on both sides, which is taken for a guard as well. Lines with
neither are written where the braces before them put them. -/
theorem isOpenGuard_keyword (line : List Char) :
    (isOpenGuard line = true → HasKeyword line ∨ StandsInside "else if".toList line) ∧
      (StandsInside "else if".toList line →
        isOpenGuard line = !(isComment line || opensBlock line || [';'].isSuffixOf line)) ∧
      ∀ unit base lines,
        (∀ line ∈ lines, ¬ HasKeyword line ∧ ¬ StandsInside "else if".toList line) →
        indentFrom unit (State.ofDepth base) lines = lines.mapIdx fun i line =>
          indentLine unit
            (((lines.take i).foldl State.nextByBraces (State.ofDepth base)).depthOf line) line := by
  refine ⟨hasKeyword_or_standsInside, isOpenGuard_of_standsInside, fun unit base lines hlines => ?_⟩
  refine indentFrom_byBraces unit (fun line hline => ?_) rfl
  obtain ⟨hkeyword, hinside⟩ := hlines line hline
  rw [← Bool.not_eq_true]
  exact fun hguard => (hasKeyword_or_standsInside hguard).elim hkeyword hinside

/-- Two longer words, the one with `else` at its end and the other with `if` at its start. -/
def lookalike : List Char := "something_else if_ready()".toList

/-- The shortest guard, the two longer words, and lines that only have the letters of keywords. -/
theorem isOpenGuard_keyword_lookalike :
    (isOpenGuard "else".toList = true ∧ HasKeyword "else".toList) ∧
      (StandsInside "else if".toList lookalike ∧ isOpenGuard lookalike = true) ∧
      let lines := ["for_each(x) \x7b".toList, "do_while".toList, "\x7d".toList,
        "something_else".toList]
      indentFrom 2 (State.ofDepth 0) lines = ["for_each(x) \x7b".toList, "  do_while".toList,
        "\x7d".toList, "something_else".toList] := by
  have hguard : isOpenGuard "else".toList = true := by decide +kernel
  have hinside : StandsInside "else if".toList lookalike :=
    ⟨"something".toList, "ready()".toList, '_', '_', by decide +kernel, rfl, rfl⟩
  refine ⟨⟨hguard, ?_⟩, ⟨hinside, ?_⟩, ?_⟩
  · refine ((isOpenGuard_keyword _).1 hguard).resolve_right fun h => ?_
    exact absurd h.isInfix (by decide)
  · exact ((isOpenGuard_keyword lookalike).2.1 hinside).trans (by decide +kernel)
  · intro lines
    have hlines : ∀ line ∈ lines, ¬ HasKeyword line ∧ ¬ "else if".toList <:+: line := by
      decide +kernel
    refine ((isOpenGuard_keyword []).2.2 2 0 lines fun line hline => ?_).trans (by decide +kernel)
    exact ⟨(hlines line hline).1, fun h => (hlines line hline).2 h.isInfix⟩

/-- **A line without a keyword may be taken for a guard**, although it is trimmed. -/
theorem isOpenGuard_without_keyword :
    ¬ ∀ line, trimChars line = line → isOpenGuard line = true → HasKeyword line := by
  intro h
  have hkeyword := h lookalike (by decide +kernel) (by decide +kernel)
  revert hkeyword
  decide +kernel

end Layout

end Extractor
