import Extractor.Proofs.Text.Search
import Extractor.Template.Expression
import Mathlib.Data.List.TakeWhile
/-!
# The first lambda of a text

The map goes into the captures of the lambda that starts first, and nothing else of the text changes
(`inject_first`). A lambda is found by its introducer: an opening bracket, captures without brackets
and line breaks, a closing bracket and an empty list of parameters.
-/

namespace Extractor.Template

/-- What follows the captures of a lambda without parameters. -/
def capturesEnd : List Char := [']', '(', ')']

/-- The introducer of a lambda without parameters stands behind `front`, with these captures. -/
structure IntroducerAt (text front captures back : List Char) : Prop where
  text_eq : text = front ++ '[' :: (captures ++ (capturesEnd ++ back))
  captures_ok : ∀ c ∈ captures, isCaptureChar c = true

/-- There is a lambda without parameters in the code. -/
def HasIntroducer (code : String) : Prop :=
  ∃ front captures back, IntroducerAt code.toList front captures back

/-- The introducer behind `front` is the first one of the text. -/
structure FirstIntroducer (text front captures back : List Char) : Prop
    extends IntroducerAt text front captures back where
  leftmost : ∀ f c b, IntroducerAt text f c b → front.length ≤ f.length

section

variable {text front captures back rest f c b : List Char} {first : Char}

theorem toList_capturesEnd : "]()".toList = capturesEnd := by decide

theorem captures?_eq_some_iff : captures? rest = some (captures, back) ↔
    rest = captures ++ (capturesEnd ++ back) ∧ ∀ c ∈ captures, isCaptureChar c = true := by
  unfold captures?
  rw [Option.map_eq_some_iff, toList_capturesEnd]
  constructor
  · rintro ⟨after, hafter, heq⟩
    obtain ⟨rfl, rfl⟩ := Prod.mk.inj heq
    refine ⟨?_, fun c hc => List.mem_takeWhile_imp hc⟩
    rw [← Text.isPrefixOf?_eq_some hafter, List.takeWhile_append_dropWhile]
  · rintro ⟨rfl, hcaptures⟩
    have hdrop : (captures ++ (capturesEnd ++ back)).dropWhile isCaptureChar =
        capturesEnd ++ back := by
      rw [List.dropWhile_append_of_pos hcaptures]
      rfl
    have htake : (captures ++ (capturesEnd ++ back)).takeWhile isCaptureChar = captures := by
      rw [List.takeWhile_append_of_pos hcaptures]
      exact List.append_nil captures
    exact ⟨back, by rw [hdrop, Text.isPrefixOf?_append], by rw [htake]⟩

theorem introducerAt_cons_iff {c : Char} : IntroducerAt (c :: rest) front captures back ↔
    (front = [] ∧ c = '[' ∧ captures? rest = some (captures, back)) ∨
      ∃ others, front = c :: others ∧ IntroducerAt rest others captures back := by
  rw [captures?_eq_some_iff]
  constructor
  · rintro ⟨heq, hcaptures⟩
    cases front with
    | nil =>
      obtain ⟨hc, hrest⟩ := List.cons.inj heq
      exact Or.inl ⟨rfl, hc, hrest, hcaptures⟩
    | cons d others =>
      obtain ⟨rfl, hrest⟩ := List.cons.inj heq
      exact Or.inr ⟨others, rfl, hrest, hcaptures⟩
  · rintro (⟨rfl, rfl, rfl, hcaptures⟩ | ⟨others, rfl, rfl, hcaptures⟩)
    · exact ⟨rfl, hcaptures⟩
    · exact ⟨rfl, hcaptures⟩

theorem not_introducerAt_nil : ¬ IntroducerAt [] front captures back := fun h =>
  List.append_ne_nil_of_right_ne_nil front (List.cons_ne_nil _ _) h.text_eq.symm

/-- A bracket at the start that opens no lambda hides none. -/
theorem IntroducerAt.of_cons (hstart : first = '[' → captures? rest = none)
    (h : IntroducerAt (first :: rest) front captures back) :
    ∃ others, front = first :: others ∧ IntroducerAt rest others captures back := by
  rcases introducerAt_cons_iff.1 h with ⟨-, hfirst, hfound⟩ | h
  · rw [hstart hfirst] at hfound
    cases hfound
  · exact h

theorem FirstIntroducer.cons (hstart : first = '[' → captures? rest = none)
    (h : FirstIntroducer rest front captures back) :
    FirstIntroducer (first :: rest) (first :: front) captures back where
  toIntroducerAt := introducerAt_cons_iff.2 (Or.inr ⟨front, rfl, h.toIntroducerAt⟩)
  leftmost := by
    intro f c b hat
    obtain ⟨others, rfl, hothers⟩ := hat.of_cons hstart
    simpa using h.leftmost others c b hothers

theorem FirstIntroducer.unique (h : FirstIntroducer text front captures back)
    (h' : FirstIntroducer text f c b) : front = f ∧ captures = c ∧ back = b := by
  have hlength : front.length = f.length :=
    Nat.le_antisymm (h.leftmost f c b h'.toIntroducerAt)
      (h'.leftmost front captures back h.toIntroducerAt)
  obtain ⟨hfront, hbracket⟩ := List.append_inj (h.text_eq.symm.trans h'.text_eq) hlength
  have hrest := (List.cons.inj hbracket).2
  have hfound : captures? (captures ++ (capturesEnd ++ back)) = some (captures, back) :=
    captures?_eq_some_iff.2 ⟨rfl, h.captures_ok⟩
  have hfound' : captures? (captures ++ (capturesEnd ++ back)) = some (c, b) :=
    captures?_eq_some_iff.2 ⟨hrest, h'.captures_ok⟩
  rw [hfound] at hfound'
  cases hfound'
  exact ⟨hfront, rfl, rfl⟩

theorem injectChars_cons (hstart : first = '[' → captures? rest = none) :
    injectChars (first :: rest) = first :: injectChars rest := by
  rw [injectChars]
  split_ifs with hfirst
  · rw [hstart hfirst]
  · rfl

/-- **The map goes into the captures of the first lambda, if there is one.** -/
theorem injectChars_first (text : List Char) :
    ((∀ front captures back, ¬ IntroducerAt text front captures back) ∧ injectChars text = text) ∨
      ∃ front captures back, FirstIntroducer text front captures back ∧
        injectChars text = front ++ (introducer captures ++ back) := by
  induction text with
  | nil => exact Or.inl ⟨fun _ _ _ => not_introducerAt_nil, rfl⟩
  | cons first rest ih =>
    by_cases hstart : first = '[' → captures? rest = none
    · rw [injectChars_cons hstart]
      rcases ih with ⟨hnone, hrest⟩ | ⟨front, captures, back, hfirst, hrest⟩
      · refine Or.inl ⟨fun front captures back h => ?_, by rw [hrest]⟩
        obtain ⟨others, -, h⟩ := h.of_cons hstart
        exact hnone others captures back h
      · exact Or.inr ⟨first :: front, captures, back, hfirst.cons hstart, by rw [hrest]; rfl⟩
    · obtain ⟨rfl, hsome⟩ := Classical.not_imp.1 hstart
      obtain ⟨⟨captures, back⟩, hfound⟩ := Option.ne_none_iff_exists'.1 hsome
      refine Or.inr ⟨[], captures, back, ⟨introducerAt_cons_iff.2 (Or.inl ⟨rfl, rfl, hfound⟩),
        fun _ _ _ _ => Nat.zero_le _⟩, ?_⟩
      simp only [injectChars, if_true, hfound, List.nil_append]

theorem injectChars_cases (text : List Char) :
    ((∀ front captures back, ¬ IntroducerAt text front captures back) ∧ injectChars text = text) ∨
      ∃ front captures back, IntroducerAt text front captures back ∧
        injectChars text = front ++ (introducer captures ++ back) := by
  refine (injectChars_first text).imp_right ?_
  rintro ⟨front, captures, back, hfirst, hinject⟩
  exact ⟨front, captures, back, hfirst.toIntroducerAt, hinject⟩

end

/-- **Only the first lambda of a text changes.** A text without a lambda stays as it is. In any other
one the map is put before the captures of the lambda that starts first, and what stands before these
captures, in them and behind them is kept. -/
theorem inject_first (text : String) :
    (¬ HasIntroducer text → inject text = text) ∧
    (HasIntroducer text → ∃ front captures back : String,
      FirstIntroducer text.toList front.toList captures.toList back.toList) ∧
    ∀ front captures back : String,
      FirstIntroducer text.toList front.toList captures.toList back.toList →
      inject text =
        if captures = "" then front ++ "[&mapping]()" ++ back
        else front ++ "[&mapping," ++ captures ++ "]()" ++ back := by
  rcases injectChars_first text.toList with ⟨hnone, hinject⟩ | ⟨f, c, b, hfirst, hinject⟩
  · have hnot : ¬ HasIntroducer text := by
      rintro ⟨front, captures, back, h⟩
      exact hnone front captures back h
    refine ⟨fun _ => ?_, fun h => absurd h hnot, fun front captures back h => ?_⟩
    · rw [inject, hinject, String.ofList_toList]
    · exact absurd ⟨_, _, _, h.toIntroducerAt⟩ hnot
  · refine ⟨fun h => absurd ⟨f, c, b, hfirst.toIntroducerAt⟩ h, fun _ => ?_,
      fun front captures back h => ?_⟩
    · exact ⟨String.ofList f, String.ofList c, String.ofList b, by simpa using hfirst⟩
    · obtain ⟨rfl, rfl, rfl⟩ := hfirst.unique h
      rw [inject, hinject, introducer, ← String.toList_inj]
      by_cases hcaptures : captures = "" <;> simp [hcaptures, mapName]

/-- A look-up, and two lambdas behind it. -/
def twoLambdas : String := "a[0] + [entry, &x]() \x7b\x7d() + []() \x7b\x7d()"

/-- The bracket of the look-up is no lambda, and the second lambda stays as it is. -/
theorem inject_twoLambdas :
    FirstIntroducer twoLambdas.toList "a[0] + ".toList "entry, &x".toList
      " \x7b\x7d() + []() \x7b\x7d()".toList ∧
    inject twoLambdas = "a[0] + [&mapping,entry, &x]() \x7b\x7d() + []() \x7b\x7d()" := by
  have hlambda : FirstIntroducer "[entry, &x]() \x7b\x7d() + []() \x7b\x7d()".toList []
      "entry, &x".toList " \x7b\x7d() + []() \x7b\x7d()".toList :=
    ⟨⟨by decide +kernel, List.all_eq_true.1 (by decide +kernel)⟩, fun _ _ _ _ => Nat.zero_le _⟩
  have hfirst : FirstIntroducer twoLambdas.toList "a[0] + ".toList "entry, &x".toList
      " \x7b\x7d() + []() \x7b\x7d()".toList := by
    iterate 7 refine FirstIntroducer.cons (by decide +kernel) ?_
    exact hlambda
  exact ⟨hfirst, (inject_first twoLambdas).2.2 _ _ _ hfirst⟩

end Extractor.Template
