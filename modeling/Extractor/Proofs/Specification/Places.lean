import Extractor.Proofs.Specification.Layout
import Extractor.Proofs.Text.Lines
import Mathlib.Data.List.DropRight
/-!
# Places of lines

The span of a line that is read shows, in the source, the line without the white space at its end,
and the span of its key shows the text before the separator (`readAll_placed`). A position is told
by the text before it alone (`Position.behind`), so these spans count the bytes, line breaks and
characters that are there, whatever lines have been left out.
-/

namespace Extractor

open Text
open Grammar

/-- The position behind a text: its bytes, its line breaks, and its characters behind the last one
of them. -/
def Position.behind (front : List Char) : Position :=
  ⟨byteSize front, front.count '\n', (front.rtakeWhile (· ≠ '\n')).length⟩

namespace Span

/-- This text stands in the source where the span starts, and ends where it stops. -/
def Covers (span : Span) (source : String) (text : List Char) : Prop :=
  ∃ before after, source.toList = before ++ text ++ after ∧
    span = ⟨.behind before, .behind (before ++ text)⟩

/-- The span covers this text, with which the line of that number starts. -/
structure Starts (span : Span) (source : String) (number : Nat) (text : List Char) : Prop where
  covers : span.Covers source text
  line : span.start.line = number
  column : span.start.column = 0

end Span

/-! ## Positions between lines -/

section

variable {front text raw : List Char} {lines rest : List (List Char)}

theorem Position.behind_append (front : List Char) (h : '\n' ∉ text) :
    behind (front ++ text) = ⟨byteSize front + byteSize text, (behind front).line,
      (behind front).column + text.length⟩ := by
  have hcount : text.count '\n' = 0 := List.count_eq_zero.2 h
  have htake : (front ++ text).rtakeWhile (· ≠ '\n') = front.rtakeWhile (· ≠ '\n') ++ text := by
    unfold List.rtakeWhile
    rw [List.reverse_append, List.takeWhile_append_of_pos, List.reverse_append,
      List.reverse_reverse]
    intro c hc
    exact decide_eq_true fun heq => h (heq ▸ List.mem_reverse.1 hc)
  unfold behind
  rw [byteSize_append, List.count_append, hcount, htake, List.length_append, Nat.add_zero]

theorem Position.behind_lines (h : ∀ line ∈ lines, '\n' ∉ line) :
    behind (lines.flatMap (· ++ ['\n'])) =
      ⟨byteSize (lines.flatMap (· ++ ['\n'])), lines.length, 0⟩ := by
  have hcount : (lines.flatMap (· ++ ['\n'])).count '\n' = lines.length := by
    induction lines with
    | nil => rfl
    | cons line lines ih =>
      obtain ⟨hline, hothers⟩ := List.forall_mem_cons.1 h
      rw [List.flatMap_cons, List.count_append, List.count_append, ih hothers,
        List.count_eq_zero.2 hline, List.length_cons]
      exact Nat.add_comm _ _
  have hcolumn : (lines.flatMap (· ++ ['\n'])).rtakeWhile (· ≠ '\n') = [] := by
    rcases List.eq_nil_or_concat lines with rfl | ⟨lines, line, rfl⟩
    · rfl
    · rw [List.concat_eq_append, List.flatMap_append, List.flatMap_singleton, ← List.append_assoc,
        List.rtakeWhile_concat_neg _ _ _ (by simp)]
  rw [behind, hcount, hcolumn]
  rfl

/-- What a line of the source starts with is covered by a span from the start of this line. -/
theorem Span.starts_ofLineStart {source : String}
    (h : source.toList.splitOn '\n' = lines ++ raw :: rest) (htext : text <+: raw) :
    (Span.ofLineStart (byteSize (lines.flatMap (· ++ ['\n']))) lines.length text).Starts source
      lines.length text := by
  obtain ⟨space, rfl⟩ := htext
  have hmem : ∀ line ∈ lines ++ (text ++ space) :: rest, '\n' ∉ line :=
    h ▸ fun line hline => not_mem_of_mem_splitOn hline
  rw [List.forall_mem_append, List.forall_mem_cons] at hmem
  obtain ⟨hlines, hraw, -⟩ := hmem
  have htext : '\n' ∉ text := fun hbreak => hraw (List.mem_append_left _ hbreak)
  -- The break behind the last line is none of the source.
  have hsource := flatMap_splitOn '\n' source.toList
  rw [h, List.flatMap_append, List.flatMap_cons] at hsource
  have hbehind := Position.behind_append (lines.flatMap (· ++ ['\n'])) htext
  rw [Position.behind_lines hlines] at hbehind
  refine ⟨⟨lines.flatMap (· ++ ['\n']),
    (space ++ '\n' :: rest.flatMap (· ++ ['\n'])).dropLast, ?_, ?_⟩, rfl, rfl⟩
  · have hdrop := congrArg List.dropLast hsource
    rw [List.dropLast_concat] at hdrop
    rw [← hdrop, ← List.dropLast_append_of_ne_nil (by simp)]
    simp
  · rw [hbehind, Position.behind_lines hlines, Nat.zero_add]
    rfl

end

/-! ## Reading at a place -/

namespace Line

/-- The number of the line in its source. -/
def number : Line → Nat
  | .continuation _ span => span.start.line
  | .entry _ _ keySpan _ => keySpan.start.line

/-- One of the raw lines, read at its own place, gives this result. -/
def ResultAmong (byte number : Nat) (raws : List (List Char)) (result : Except Fault (Option Line)) :
    Prop :=
  ∃ before raw after, raws = before ++ raw :: after ∧
    read (byte + byteSize (before.flatMap (· ++ ['\n']))) (number + before.length) raw = result

section

variable {byte number : Nat} {raw : List Char} {raws : List (List Char)}
  {result : Except Fault (Option Line)}

theorem read_of_not_indented (hsignificant : Significant (dropBlankEnd raw))
    (hindented : ¬ Indented (dropBlankEnd raw)) :
    read byte number raw =
      match separate? (dropBlankEnd raw) with
      | some (key, value) =>
        .ok (some (.entry (String.ofList (trimChars key)) (String.ofList (trimChars value))
          (Span.ofLineStart byte number key) (Span.ofLineStart byte number (dropBlankEnd raw))))
      | none => .error (.missingSeparator (String.ofList (dropBlankEnd raw))
          (Span.ofLineStart byte number (dropBlankEnd raw))) := by
  unfold read
  split
  · next hnil => exact absurd hnil hsignificant.1
  · next hcomment =>
    rw [hcomment] at hsignificant
    exact absurd rfl hsignificant.2
  · next c rest _ hcons =>
    rw [hcons] at hindented ⊢
    exact if_neg hindented

theorem ResultAmong.head (h : read byte number raw = result) :
    ResultAmong byte number (raw :: raws) result :=
  ⟨[], raw, raws, rfl, h⟩

theorem ResultAmong.cons (h : ResultAmong (byte + byteSize raw + 1) (number + 1) raws result) :
    ResultAmong byte number (raw :: raws) result := by
  obtain ⟨before, raw', after, rfl, hread⟩ := h
  refine ⟨raw :: before, raw', after, rfl, ?_⟩
  have hbreak : byteSize ['\n'] = 1 := by decide
  rw [List.flatMap_cons, byteSize_append, byteSize_append, hbreak, List.length_cons, ← hread]
  congr 1 <;> omega

/-- Whatever comes of reading the lines comes of reading one of them. -/
theorem readFrom_resultAmong (byte number : Nat) (raws : List (List Char)) :
    match readFrom byte number raws with
    | .ok lines => ∀ line ∈ lines, ResultAmong byte number raws (.ok (some line))
    | .error fault => ResultAmong byte number raws (.error fault) := by
  induction raws generalizing byte number with
  | nil => exact List.forall_mem_nil _
  | cons raw raws ih =>
    have hothers := ih (byte + byteSize raw + 1) (number + 1)
    unfold readFrom
    cases hread : read byte number raw with
    | error fault => exact .head hread
    | ok line? =>
      cases hrest : readFrom (byte + byteSize raw + 1) (number + 1) raws with
      | error fault =>
        rw [hrest] at hothers
        exact hothers.cons
      | ok lines =>
        rw [hrest] at hothers
        intro line hline
        rw [List.mem_append, Option.mem_toList] at hline
        rcases hline with rfl | hline
        · exact .head hread
        · exact (hothers line hline).cons

end

end Line

/-! ## Lines and their places -/

namespace Grammar

/-- A line that is read covers the line of the source that it is read from, and its key covers the
text before the separator. -/
inductive Placed (source : String) : List Char × Nat → Line → Prop
  | continuation {text : List Char} {number : Nat} {span : Span}
      (hspan : span.Starts source number text) (hindented : Indented text) :
      Placed source (text, number) (.continuation (String.ofList (trimChars text)) span)
  | entry {text key value : List Char} {number : Nat} {keySpan span : Span}
      (hspan : span.Starts source number text) (hkey : keySpan.Starts source number key)
      (hindented : ¬ Indented text) (hsplit : Splits text key value) :
      Placed source (text, number)
        (.entry (String.ofList (trimChars key)) (String.ofList (trimChars value)) keySpan span)

/-- The line is the first one for which `P` holds. -/
def FirstWith (P : List Char → Prop) (lines : List (List Char × Nat)) (line : List Char × Nat) :
    Prop :=
  ∃ before after, lines = before ++ line :: after ∧ (∀ other ∈ before, ¬ P other.1) ∧ P line.1

section

variable {source : String} {text raw : List Char} {number : Nat} {line : Line}
  {lines : List Line} {before after : List (List Char)} {fault : Fault}

theorem mem_significant_iff : (text, number) ∈ significant source ↔
    ((source.toList.splitOn '\n').map dropBlankEnd)[number]? = some text ∧ Significant text := by
  unfold significant significantFrom
  rw [List.mem_filter, List.mk_mem_zipIdx_iff_getElem?, decide_eq_true_eq]

/-- No two significant lines have one number. -/
theorem eq_of_mem_significant {text' : List Char} (h : (text, number) ∈ significant source)
    (h' : (text', number) ∈ significant source) : text = text' := by
  rw [mem_significant_iff] at h h'
  exact Option.some.inj (h.1.symm.trans h'.1)

theorem mem_significant_of_splitOn (h : source.toList.splitOn '\n' = before ++ raw :: after)
    (hsignificant : Significant (dropBlankEnd raw)) :
    (dropBlankEnd raw, before.length) ∈ significant source := by
  rw [mem_significant_iff, h]
  exact ⟨by simp, hsignificant⟩

theorem Splits.isPrefix {key value : List Char} (h : Splits text key value) : key <+: text := by
  cases h with
  | inside hkey hfirst => exact ⟨_, by rw [hfirst.1, List.append_assoc]⟩
  | atEnd hkey hnone => exact List.prefix_append _ _

/-- A line that is read at its place in the source is placed there. -/
theorem placed_of_read (h : source.toList.splitOn '\n' = before ++ raw :: after)
    (hread : Line.read (byteSize (before.flatMap (· ++ ['\n']))) before.length raw =
      .ok (some line)) :
    (dropBlankEnd raw, before.length) ∈ significant source ∧
      Placed source (dropBlankEnd raw, before.length) line := by
  have hspec := read_spec (byteSize (before.flatMap (· ++ ['\n']))) before.length raw
  rw [hread] at hspec
  obtain ⟨hsignificant, -⟩ := hspec
  have hspan := Span.starts_ofLineStart h (dropBlankEnd_isPrefix raw)
  refine ⟨mem_significant_of_splitOn h hsignificant, ?_⟩
  by_cases hindented : Indented (dropBlankEnd raw)
  · rw [Line.read_of_indented hindented] at hread
    cases hread
    exact .continuation hspan hindented
  · rw [Line.read_of_not_indented hsignificant hindented] at hread
    cases hsplit : Line.separate? (dropBlankEnd raw) with
    | none =>
      rw [hsplit] at hread
      cases hread
    | some split =>
      obtain ⟨key, value⟩ := split
      rw [hsplit] at hread
      cases hread
      rw [separate?_eq_some_iff] at hsplit
      have hkey := Span.starts_ofLineStart h (hsplit.isPrefix.trans (dropBlankEnd_isPrefix raw))
      exact .entry hspan hkey hindented hsplit

/-- A line that has no separator is refused with its place. -/
theorem starts_of_read_error (h : source.toList.splitOn '\n' = before ++ raw :: after)
    (hread : Line.read (byteSize (before.flatMap (· ++ ['\n']))) before.length raw = .error fault) :
    (dropBlankEnd raw, before.length) ∈ significant source ∧
      fault.span.Starts source before.length (dropBlankEnd raw) := by
  have hspec := read_spec (byteSize (before.flatMap (· ++ ['\n']))) before.length raw
  rw [hread] at hspec
  obtain ⟨hsignificant, hseparated, -, -⟩ := hspec
  rw [separated_iff, not_or] at hseparated
  obtain ⟨hindented, hnone⟩ := hseparated
  refine ⟨mem_significant_of_splitOn h hsignificant, ?_⟩
  rw [Line.read_of_not_indented hsignificant hindented] at hread
  cases hsplit : Line.separate? (dropBlankEnd raw) with
  | some split => exact absurd ⟨split.1, split.2, hsplit⟩ hnone
  | none =>
    rw [hsplit] at hread
    cases hread
    exact Span.starts_ofLineStart h (dropBlankEnd_isPrefix raw)

theorem Reads.number_eq {place : List Char × Nat} (h : Reads place line) : line.number = place.2 := by
  cases h <;> assumption

theorem Placed.number_eq {place : List Char × Nat} (h : Placed source place line) :
    line.number = place.2 := by
  cases h with
  | continuation hspan _ => exact hspan.line
  | entry _ hkey _ _ => exact hkey.line

/-- The key of a line that is not indented starts with its first character. -/
theorem Splits.trimChars_ne_nil {key value : List Char} (h : Splits text key value)
    (hindented : ¬ Indented text) : trimChars key ≠ [] := by
  have hne : key ≠ [] := by cases h <;> assumption
  obtain ⟨c, key, rfl⟩ := List.exists_cons_of_ne_nil hne
  obtain ⟨rest, rfl⟩ := h.isPrefix
  rw [Ne, trimChars_eq_nil_iff, List.all_cons, Bool.and_eq_true]
  exact fun hblank => hindented hblank.1

theorem Placed.entry_trimmed {source : String} {key value : String} {keySpan span : Span}
    {place : List Char × Nat} (h : Placed source place (.entry key value keySpan span)) :
    trim key = key ∧ trim value = value ∧ key ≠ "" := by
  have htrim (text : List Char) : trim (String.ofList (trimChars text)) =
      String.ofList (trimChars text) := by
    rw [trim, String.toList_ofList, trimChars_trimChars]
  cases h with
  | entry _ _ hindented hsplit =>
    refine ⟨htrim _, htrim _, fun hempty => hsplit.trimChars_ne_nil hindented ?_⟩
    rw [← String.toList_ofList (l := trimChars _), hempty]
    rfl

theorem FirstWith.mem {P : List Char → Prop} {sources : List (List Char × Nat)}
    {place : List Char × Nat} (h : FirstWith P sources place) : place ∈ sources := by
  obtain ⟨before, after, rfl, -, -⟩ := h
  exact List.mem_append_right _ List.mem_cons_self

/-- The line with the number of the first failing one is that line. -/
theorem firstWith_of_firstFailing {P : List Char → Prop}
    (h : FirstFailing P (significant source) number) (hmem : (text, number) ∈ significant source) :
    FirstWith (¬ P ·) (significant source) (text, number) := by
  obtain ⟨before, text', after, hsource, hbefore, htext⟩ := h
  have hmem' : (text', number) ∈ significant source := by
    rw [hsource]
    exact List.mem_append_right _ List.mem_cons_self
  obtain rfl := eq_of_mem_significant hmem hmem'
  exact ⟨before, after, hsource, fun other hother => not_not.2 (hbefore other hother), htext⟩

/-! ## Reading a source -/

theorem exists_placed (h : Line.readAll source = .ok lines) (hline : line ∈ lines) :
    ∃ place ∈ significant source, Placed source place line := by
  have hgives := Line.readFrom_resultAmong 0 0 (source.toList.splitOn '\n')
  rw [← Line.readAll, h] at hgives
  obtain ⟨before, raw, after, hraws, hread⟩ := hgives line hline
  rw [Nat.zero_add, Nat.zero_add] at hread
  exact ⟨_, placed_of_read hraws hread⟩

theorem forall₂_placed (h : Line.readAll source = .ok lines) :
    List.Forall₂ (Placed source) (significant source) lines := by
  rcases readFrom_cases 0 0 (source.toList.splitOn '\n') with
    ⟨lines', hlines, hreads⟩ | ⟨fault, hfault, -⟩
  · rw [Line.readAll, hlines] at h
    cases h
    rw [List.forall₂_iff_zip] at hreads ⊢
    refine ⟨hreads.1, fun {place line} hmem => ?_⟩
    obtain ⟨hsource, hline⟩ := List.of_mem_zip hmem
    obtain ⟨place', hsource', hplaced⟩ := exists_placed hlines hline
    -- The line knows its number, and so which of the significant lines it was.
    have hnumber := (hreads.2 hmem).number_eq.symm.trans hplaced.number_eq
    obtain ⟨text, number⟩ := place
    obtain ⟨text', number'⟩ := place'
    obtain rfl : number = number' := hnumber
    obtain rfl := eq_of_mem_significant hsource hsource'
    exact hplaced
  · rw [Line.readAll, hfault] at h
    cases h

theorem first_of_readAll_error (h : Line.readAll source = .error fault) :
    fault.kind = .missingSeparator ∧
      ∃ text number, FirstWith (¬ Separated ·) (significant source) (text, number) ∧
        fault.span.Starts source number text := by
  have hgives := Line.readFrom_resultAmong 0 0 (source.toList.splitOn '\n')
  rw [← Line.readAll, h] at hgives
  obtain ⟨before, raw, after, hraws, hread⟩ := hgives
  rw [Nat.zero_add, Nat.zero_add] at hread
  obtain ⟨hmem, hstarts⟩ := starts_of_read_error hraws hread
  rcases readFrom_cases 0 0 (source.toList.splitOn '\n') with
    ⟨lines, hlines, -⟩ | ⟨fault', hfault, hkind, hfirst⟩
  · rw [Line.readAll, hlines] at h
    cases h
  · rw [Line.readAll, hfault] at h
    cases h
    rw [hstarts.line] at hfirst
    exact ⟨hkind, _, _, firstWith_of_firstFailing hfirst hmem, hstarts⟩

/-- **Every line that is read shows where it stands.** The lines read are the significant ones of
the source, each with the spans of its text and its key. When a line has no separator, the fault
shows the first such line. -/
theorem readAll_placed (source : String) :
    match Line.readAll source with
    | .ok lines => List.Forall₂ (Placed source) (significant source) lines ∧
        ∀ key value keySpan span, .entry key value keySpan span ∈ lines →
          trim key = key ∧ trim value = value ∧ key ≠ ""
    | .error fault => fault.kind = .missingSeparator ∧
        ∃ text number, FirstWith (¬ Separated ·) (significant source) (text, number) ∧
          fault.span.Starts source number text := by
  split
  · next lines hlines =>
    refine ⟨forall₂_placed hlines, fun key value keySpan span hmem => ?_⟩
    obtain ⟨place, -, hplaced⟩ := exists_placed hlines hmem
    exact hplaced.entry_trimmed
  · next fault hfault => exact first_of_readAll_error hfault

end

end Grammar

end Extractor
