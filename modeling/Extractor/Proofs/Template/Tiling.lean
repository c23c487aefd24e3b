import Extractor.Proofs.Key
import Extractor.Template
import Mathlib.Data.List.Chain
import Mathlib.Data.List.Forall2
/-!
# Segments tile a template

Written back one after the other, the segments of a template are the template again, and only one list
of segments does this in which no delimiter is left over that has a partner (`scan_eq_iff`). So every
opening delimiter that is closed is the start of a placeholder, up to the first closing one behind it,
and one that is not closed stays in the text.
-/

namespace Extractor

open Text (breakAt? FirstAt)

/-- What stands between the braces of a placeholder. White space around the key of a field does not
count. -/
def Placeholder.Spelled (inner : List Char) : Placeholder → Prop
  | .field key => ∃ written, inner = "field[".toList ++ (written ++ [']']) ∧
      Text.trim (String.ofList written) = key.written ∧ Key.parse (String.ofList written) = key
  | .list path => inner = "QStringList:".toList ++ path.toList
  | .join path => inner = path.toList ∧ ¬ "QStringList:".toList <+: inner ∧
      ∀ written, inner ≠ "field[".toList ++ (written ++ [']'])

/-- The segment is literal text. -/
def Segment.isText : Segment → Bool
  | .text _ => true
  | .placeholder _ => false

namespace Template

/-- The piece of a template that a segment was read from: literal text as it is, a placeholder
between its braces. No closing brace pair is complete before the last brace of the placeholder. -/
def Writes : Segment → List Char → Prop
  | .text text, piece => piece = text.toList
  | .placeholder p, piece => ∃ inner, piece = opening ++ (inner ++ closing) ∧ p.Spelled inner ∧
      ¬ closing <:+: inner ++ ['\x7d']

/-- The segments make up the text, and leave over no delimiter that has a partner. -/
structure Tiling (text : List Char) (segments : List Segment) : Prop where
  pieces : ∃ pieces, List.Forall₂ Writes segments pieces ∧ pieces.flatten = text
  nonempty : .text "" ∉ segments
  apart : segments.IsChain fun a b => ¬ (a.isText = true ∧ b.isText = true)
  /-- No opening brace pair is complete before the last opening brace of the placeholder behind. -/
  before : ∀ literal p, [.text literal, .placeholder p] <:+: segments →
    ¬ opening <:+: literal.toList ++ ['\x7b']
  /-- An opening brace pair may stay in literal text at the end, if nothing closes it. -/
  atEnd : ∀ literal, [.text literal] <:+ segments →
    ∀ front back, FirstAt opening literal.toList front back → ¬ closing <:+: back

/-! ## Placeholders -/

section

variable {inner written : List Char} {p : Placeholder}

theorem fieldKey?_eq_some_iff :
    ("field[".toList.isPrefixOf? inner).bind ([']'].isSuffixOf? ·) = some written ↔
      inner = "field[".toList ++ (written ++ [']']) := by
  rw [Option.bind_eq_some_iff]
  simp only [Text.isPrefixOf?_eq_some_iff, Text.isSuffixOf?_eq_some_iff]
  constructor
  · rintro ⟨rest, rfl, rfl⟩
    rfl
  · rintro rfl
    exact ⟨_, rfl, rfl⟩

theorem spelled_parse (inner : List Char) : (Placeholder.parse inner).Spelled inner := by
  unfold Placeholder.parse
  split
  · next written hkey =>
    exact ⟨written, fieldKey?_eq_some_iff.1 hkey, (Key.written_parse _).symm, rfl⟩
  · next hkey =>
    split
    · next path hpath =>
      have hinner := Text.isPrefixOf?_eq_some_iff.1 hpath
      exact hinner.trans (congrArg ("QStringList:".toList ++ ·) String.toList_ofList.symm)
    · next hpath =>
      refine ⟨String.toList_ofList.symm, Text.isPrefixOf?_eq_none_iff.1 hpath, ?_⟩
      intro written hwritten
      rw [fieldKey?_eq_some_iff.2 hwritten] at hkey
      cases hkey

/-- A placeholder is read from nothing but its spellings. -/
theorem parse_eq_iff : Placeholder.parse inner = p ↔ p.Spelled inner := by
  constructor
  · rintro rfl
    exact spelled_parse inner
  · intro h
    unfold Placeholder.parse
    cases p with
    | field key =>
      obtain ⟨written, hinner, -, hkey⟩ := h
      rw [fieldKey?_eq_some_iff.2 hinner]
      exact congrArg Placeholder.field hkey
    | list path =>
      have hinner : inner = "QStringList:".toList ++ path.toList := h
      have hfield : "field[".toList.isPrefixOf? inner = none := by
        rw [hinner]
        rfl
      rw [hfield, Option.bind_none, Text.isPrefixOf?_eq_some_iff.2 hinner]
      simp
    | join path =>
      obtain ⟨hinner, hlist, hfield⟩ := h
      have hkey : ("field[".toList.isPrefixOf? inner).bind ([']'].isSuffixOf? ·) = none := by
        rw [Option.eq_none_iff_forall_ne_some]
        exact fun written hwritten => hfield written (fieldKey?_eq_some_iff.1 hwritten)
      rw [hkey, Text.isPrefixOf?_eq_none_iff.2 hlist]
      simp [hinner]

end

/-! ## One step of a scan -/

section

variable {text before rest inner after front : List Char}

/-- A text without a closed placeholder is literal as a whole. -/
theorem scanChars_of_open (h : ∀ front back, FirstAt opening text front back → ¬ closing <:+: back) :
    scanChars text = literal text := by
  rw [scanChars]
  split
  · rfl
  · next before rest hopen =>
    have hnone : ¬ closing <:+: rest := h before rest (Text.breakAt?_eq_some_iff.1 hopen)
    rw [← Text.breakAt?_eq_none_iff] at hnone
    split
    · rfl
    · next hsome =>
      rw [hnone] at hsome
      cases hsome

theorem scanChars_of_none (h : breakAt? opening text = none) : scanChars text = literal text := by
  refine scanChars_of_open fun front back hfirst => ?_
  rw [Text.breakAt?_eq_some_iff.2 hfirst] at h
  cases h

theorem scanChars_of_some (hopen : breakAt? opening text = some (before, rest))
    (hclose : breakAt? closing rest = some (inner, after)) :
    scanChars text = literal before ++ .placeholder (Placeholder.parse inner) :: scanChars after := by
  rw [scanChars]
  split
  · next hnone => exact absurd (hopen.symm.trans hnone) (by simp)
  · next hsome =>
    cases hopen.symm.trans hsome
    split
    · next hnone => exact absurd (hclose.symm.trans hnone) (by simp)
    · next hsome =>
      cases hclose.symm.trans hsome
      rfl

theorem scanChars_placeholder (hclose : ¬ closing <:+: inner ++ ['\x7d']) (after : List Char) :
    scanChars (opening ++ (inner ++ closing) ++ after) =
      .placeholder (Placeholder.parse inner) :: scanChars after := by
  have hopen : breakAt? opening (opening ++ (inner ++ closing) ++ after) =
      some ([], inner ++ closing ++ after) :=
    Text.breakAt?_of_isPrefixOf? (by rw [List.append_assoc, Text.isPrefixOf?_append])
  exact scanChars_of_some hopen (Text.breakAt?_of_not_infix (by decide) hclose after)

/-- Literal text ends where a placeholder follows. -/
theorem scanChars_append_placeholder (hopen : ¬ opening <:+: front ++ ['\x7b'])
    (hclose : ¬ closing <:+: inner ++ ['\x7d']) (after : List Char) :
    scanChars (front ++ (opening ++ (inner ++ closing) ++ after)) =
      literal front ++ scanChars (opening ++ (inner ++ closing) ++ after) := by
  have hfirst := Text.breakAt?_of_not_infix (by decide) hopen (inner ++ closing ++ after)
  rw [List.append_assoc, ← List.append_assoc opening, ← List.append_assoc opening] at hfirst
  rw [scanChars_placeholder hclose]
  exact scanChars_of_some hfirst (Text.breakAt?_of_not_infix (by decide) hclose after)

end

/-! ## Scanning tiles -/

namespace Tiling

variable {whole rest inner front : List Char} {segment : Segment} {segments : List Segment}
  {p : Placeholder}

theorem text_ofList_ne (hne : front ≠ []) : Segment.text "" ≠ .text (String.ofList front) := by
  intro h
  exact hne (by simpa using congrArg String.toList (Segment.text.inj h).symm)

theorem of_open (h : ∀ front back, FirstAt opening whole front back → ¬ closing <:+: back) :
    Tiling whole (literal whole) := by
  unfold literal
  by_cases hempty : whole = []
  · subst hempty
    exact ⟨⟨[], .nil, rfl⟩, by simp, by simp, by simp, by simp⟩
  · rw [if_neg (by simpa using hempty)]
    refine ⟨⟨[whole], ?_, by simp⟩, ?_, by simp, ?_, ?_⟩
    · exact .cons (by simp [Writes]) .nil
    · simpa using text_ofList_ne hempty
    · intro literal p hpair
      have hlength := hpair.length_le
      simp at hlength
    · intro literal hlast
      obtain rfl : literal = String.ofList whole := by simpa [List.suffix_cons_iff] using hlast
      simpa using h

theorem placeholder (hclose : ¬ closing <:+: inner ++ ['\x7d']) (h : Tiling rest segments) :
    Tiling (opening ++ (inner ++ closing) ++ rest)
      (.placeholder (Placeholder.parse inner) :: segments) := by
  obtain ⟨pieces, hpieces, hrest⟩ := h.pieces
  constructor
  · refine ⟨_ :: pieces, .cons ⟨inner, rfl, spelled_parse inner, hclose⟩ hpieces, ?_⟩
    rw [List.flatten_cons, hrest]
  · simpa using h.nonempty
  · cases segments with
    | nil => simp
    | cons second others =>
      rw [List.isChain_cons_cons]
      exact ⟨by simp [Segment.isText], h.apart⟩
  · intro literal p hpair
    rw [List.infix_cons_iff] at hpair
    rcases hpair with hpair | hpair
    · simp [List.cons_prefix_cons] at hpair
    · exact h.before literal p hpair
  · intro literal hlast
    rw [List.suffix_cons_iff] at hlast
    rcases hlast with hlast | hlast
    · simp at hlast
    · exact h.atEnd literal hlast

theorem text (hne : front ≠ []) (hopen : ¬ opening <:+: front ++ ['\x7b'])
    (h : Tiling rest (.placeholder p :: segments)) :
    Tiling (front ++ rest) (.text (String.ofList front) :: .placeholder p :: segments) := by
  obtain ⟨pieces, hpieces, hrest⟩ := h.pieces
  constructor
  · refine ⟨front :: pieces, .cons (by simp [Writes]) hpieces, ?_⟩
    rw [List.flatten_cons, hrest]
  · rw [List.mem_cons, not_or]
    exact ⟨text_ofList_ne hne, h.nonempty⟩
  · rw [List.isChain_cons_cons]
    exact ⟨by simp [Segment.isText], h.apart⟩
  · intro literal q hpair
    rw [List.infix_cons_iff] at hpair
    rcases hpair with hpair | hpair
    · obtain ⟨rfl, -⟩ : literal = String.ofList front ∧ q = p := by
        simpa [List.cons_prefix_cons] using hpair
      simpa using hopen
    · exact h.before literal q hpair
  · intro literal hlast
    rw [List.suffix_cons_iff] at hlast
    rcases hlast with hlast | hlast
    · simp at hlast
    · exact h.atEnd literal hlast

theorem tail (h : Tiling whole (segment :: segments)) :
    ∃ piece rest, Writes segment piece ∧ whole = piece ++ rest ∧ Tiling rest segments := by
  obtain ⟨pieces, hpieces, rfl⟩ := h.pieces
  obtain ⟨piece, others, hpiece, hothers, rfl⟩ := List.forall₂_cons_left_iff.1 hpieces
  refine ⟨piece, others.flatten, hpiece, List.flatten_cons, ⟨others, hothers, rfl⟩, ?_, ?_, ?_, ?_⟩
  · exact fun hmem => h.nonempty (List.mem_cons_of_mem _ hmem)
  · exact h.apart.tail
  · exact fun literal p hpair => h.before literal p (List.infix_cons hpair)
  · exact fun literal hlast => h.atEnd literal (hlast.trans (List.suffix_cons _ _))

end Tiling

theorem tiling_scanChars (text : List Char) : Tiling text (scanChars text) := by
  fun_induction scanChars text with
  | case1 text hnone =>
    refine Tiling.of_open fun front back hfirst => ?_
    rw [Text.breakAt?_eq_some_iff.2 hfirst] at hnone
    cases hnone
  | case2 text before rest hopen hnone =>
    refine Tiling.of_open fun front back hfirst => ?_
    rw [Text.breakAt?_eq_some_iff.2 hfirst] at hopen
    cases hopen
    exact Text.breakAt?_eq_none_iff.1 hnone
  | case3 text before rest hopen inner after hclose ih =>
    have hne : opening ≠ [] ∧ closing ≠ [] := by decide
    obtain ⟨rfl, hfirst⟩ := (Text.firstAt_iff hne.1).1 (Text.breakAt?_eq_some_iff.1 hopen)
    obtain ⟨rfl, hclosed⟩ := (Text.firstAt_iff hne.2).1 (Text.breakAt?_eq_some_iff.1 hclose)
    have htail : Tiling (opening ++ (inner ++ closing) ++ after)
        (.placeholder (Placeholder.parse inner) :: scanChars after) := ih.placeholder hclosed
    have hwhole : before ++ opening ++ (inner ++ closing ++ after) =
        before ++ (opening ++ (inner ++ closing) ++ after) := by
      simp only [List.append_assoc]
    rw [hwhole]
    by_cases hbefore : before = []
    · subst hbefore
      exact htail
    · rw [literal, if_neg (by simpa using hbefore)]
      exact htail.text hbefore hfirst

/-- Only the segments that a scan finds tile the text. -/
theorem scanChars_of_tiling {text : List Char} {segments : List Segment} (h : Tiling text segments) :
    scanChars text = segments := by
  induction segments generalizing text with
  | nil =>
    obtain ⟨pieces, hpieces, rfl⟩ := h.pieces
    cases hpieces
    exact scanChars_of_none rfl
  | cons segment segments ih =>
    obtain ⟨piece, rest, hpiece, rfl, hrest⟩ := h.tail
    cases segment with
    | placeholder p =>
      obtain ⟨inner, rfl, hp, hclose⟩ := hpiece
      rw [scanChars_placeholder hclose, parse_eq_iff.2 hp, ih hrest]
    | text literal =>
      obtain rfl : piece = literal.toList := hpiece
      have hne : literal.toList ≠ [] := by
        intro hempty
        rw [String.toList_eq_nil_iff.1 hempty] at h
        exact h.nonempty List.mem_cons_self
      have hliteral : Template.literal literal.toList = [.text literal] := by
        rw [Template.literal, if_neg (by simpa using hne), String.ofList_toList]
      cases segments with
      | nil =>
        obtain ⟨pieces, hpieces, rfl⟩ := hrest.pieces
        cases hpieces
        rw [List.flatten_nil, List.append_nil,
          scanChars_of_open (h.atEnd literal (List.suffix_refl _)), hliteral]
      | cons second others =>
        cases second with
        | text other => exact absurd ⟨rfl, rfl⟩ (List.isChain_cons_cons.1 h.apart).1
        | placeholder p =>
          have hopen := h.before literal p (List.prefix_append _ others).isInfix
          obtain ⟨_, after, ⟨inner, rfl, -, hclose⟩, rfl, -⟩ := hrest.tail
          rw [scanChars_append_placeholder hopen hclose, hliteral, ih hrest]
          rfl

/-- **The segments of a template are its one tiling.** -/
theorem scan_eq_iff (text : String) (segments : List Segment) :
    scan text = segments ↔ Tiling text.toList segments := by
  constructor
  · rintro rfl
    exact tiling_scanChars text.toList
  · exact scanChars_of_tiling

example : scan "\x7b\x7b\x7ba\x7d\x7d\x7d\x7b\x7b" =
    [.placeholder (.join "\x7ba"), .text "\x7d\x7b\x7b"] := by
  decide +kernel

end Template

end Extractor
