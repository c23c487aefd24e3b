import Extractor.Json.Extract
import Extractor.Proofs.Text.Search
/-!
# Indices at the end of a path

The texts that `isIndex` accepts are the decimal numerals (`isIndex_iff`), and `dropIndex` drops
one of them with the slash before it, if the path ends in one (`ofList_dropIndex_eq_iff`).
-/

namespace Extractor.Json

namespace Value

theorem isIndex_iff_digits {digits : List Char} :
    isIndex digits = true ↔
      digits = ['0'] ∨ (digits ≠ [] ∧ digits.head? ≠ some '0' ∧ digits.all Char.isDigit = true) := by
  unfold isIndex
  split
  · simp
  · simp
  · next c rest hzero =>
    simp only [ne_eq, reduceCtorEq, not_false_eq_true, List.head?_cons, Option.some.injEq, true_and,
      Bool.and_eq_true, bne_iff_ne]
    constructor
    · exact Or.inr
    · rintro (h | h)
      · obtain ⟨rfl, rfl⟩ := List.cons.inj h
        exact absurd rfl (hzero rfl)
      · exact h

theorem isIndex_toDigits (n : Nat) : isIndex (Nat.toDigits 10 n) = true := by
  induction n using Nat.base_induction 10 (by decide) with
  | single m hm =>
    rw [Nat.toDigits_of_lt_base hm]
    revert m
    decide
  | digit m k hk hm ih =>
    rw [← Nat.toDigits_append_toDigits (by decide) hm hk]
    rcases isIndex_iff_digits.1 ih with h | ⟨hne, hhead, hall⟩
    · have hzero : m = 0 := by
        rw [← Nat.ofDigitChars_ten_toDigits (n := m), h]
        rfl
      omega
    · refine isIndex_iff_digits.2 (Or.inr ⟨by simp [hne], ?_, ?_⟩)
      · rwa [List.head?_append_of_ne_nil _ hne]
      · rw [List.all_append, hall, Bool.true_and, List.all_eq_true]
        exact fun c hc => Nat.isDigit_of_mem_toDigits (by decide) (by decide) hc

theorem exists_digitChar {c : Char} (h : c.isDigit = true) : ∃ d < 10, c = Nat.digitChar d := by
  have h : 48 ≤ c.toNat ∧ c.toNat ≤ 57 := Char.isDigit_iff_toNat.1 h
  refine ⟨c.toNat - 48, by omega, Char.toNat_inj.1 ?_⟩
  rw [Nat.toNat_digitChar_of_lt_ten (by omega)]
  omega

/-- Digits without a zero in front are a numeral. -/
theorem exists_toDigits {digits : List Char} (hne : digits ≠ []) (hhead : digits.head? ≠ some '0')
    (hall : digits.all Char.isDigit = true) : ∃ n, 0 < n ∧ digits = Nat.toDigits 10 n := by
  induction digits using List.reverseRecOn with
  | nil => exact absurd rfl hne
  | append_singleton front c ih =>
    rw [List.all_append, Bool.and_eq_true] at hall
    have hc : c.isDigit = true := by simpa using hall.2
    obtain ⟨d, hd, rfl⟩ := exists_digitChar hc
    by_cases hfront : front = []
    · subst hfront
      refine ⟨d, ?_, by rw [Nat.toDigits_of_lt_base hd]; rfl⟩
      rcases Nat.eq_zero_or_pos d with rfl | hpos
      · exact absurd rfl hhead
      · exact hpos
    · rw [List.head?_append_of_ne_nil _ hfront] at hhead
      obtain ⟨n, hn, rfl⟩ := ih hfront hhead hall.1
      refine ⟨10 * n + d, by omega, ?_⟩
      rw [← Nat.toDigits_append_toDigits (by decide) hn hd, Nat.toDigits_of_lt_base hd]

/-- **An index is a decimal numeral.** -/
theorem isIndex_iff {digits : List Char} :
    isIndex digits = true ↔ ∃ n : Nat, digits = (toString n).toList := by
  simp only [Nat.toString_eq_repr, Nat.toList_repr]
  constructor
  · intro h
    rcases isIndex_iff_digits.1 h with rfl | ⟨hne, hhead, hall⟩
    · exact ⟨0, rfl⟩
    · obtain ⟨n, _, h⟩ := exists_toDigits hne hhead hall
      exact ⟨n, h⟩
  · rintro ⟨n, rfl⟩
    exact isIndex_toDigits n

theorem isDigit_of_isIndex {digits : List Char} (h : isIndex digits = true) {c : Char}
    (hc : c ∈ digits) : c.isDigit = true := by
  rcases isIndex_iff_digits.1 h with rfl | ⟨_, _, hall⟩
  · rw [List.mem_singleton.1 hc]
    rfl
  · exact List.all_eq_true.1 hall c hc

/-! ## Dropping an index -/

theorem dropIndex_append (front : List Char) {digits : List Char} (h : isIndex digits = true) :
    dropIndex (front ++ '/' :: digits) = front := by
  induction front with
  | nil => simp [dropIndex, h]
  | cons c front ih =>
    have hslash : isIndex (front ++ '/' :: digits) ≠ true := by
      intro hi
      have hd : ('/' : Char).isDigit = true := isDigit_of_isIndex hi (by simp)
      exact absurd hd (by decide)
    rw [List.cons_append, dropIndex, if_neg (fun hc => hslash hc.2), ih]

theorem dropIndex_eq_self {path : List Char}
    (h : ∀ front digits, isIndex digits = true → path ≠ front ++ '/' :: digits) :
    dropIndex path = path := by
  induction path with
  | nil => rfl
  | cons c rest ih =>
    have hc : ¬ (c = '/' ∧ isIndex rest = true) := by
      rintro ⟨rfl, hi⟩
      exact h [] rest hi rfl
    rw [dropIndex, if_neg hc, ih]
    intro front digits hi heq
    exact h (c :: front) digits hi (by rw [heq, List.cons_append])

/-- `key` is the path without the index at its end, or the path if it ends in none. -/
def KeyOf (path key : String) : Prop :=
  (∃ index : Nat, path = key ++ "/" ++ toString index) ∨
    (path = key ∧ ∀ (front : String) (index : Nat), path ≠ front ++ "/" ++ toString index)

theorem ofList_dropIndex_eq_iff {key path : String} :
    String.ofList (dropIndex path.toList) = key ↔ KeyOf path key := by
  -- On lists of characters: a path ends in an index or it does not.
  have hindex : ∀ (front : String) (index : Nat),
      path = front ++ "/" ++ toString index ↔
        path.toList = front.toList ++ '/' :: (toString index).toList := by
    intro front index
    rw [← String.toList_inj]
    simp
  by_cases h : ∃ front digits, isIndex digits = true ∧ path.toList = front ++ '/' :: digits
  · obtain ⟨front, digits, hi, hpath⟩ := h
    obtain ⟨index, rfl⟩ := isIndex_iff.1 hi
    rw [hpath, dropIndex_append front hi]
    constructor
    · rintro rfl
      exact Or.inl ⟨index, (hindex _ _).2 (by simpa using hpath)⟩
    · rintro (⟨other, hother⟩ | ⟨-, hnone⟩)
      · rw [hindex] at hother
        have := dropIndex_append key.toList (isIndex_iff.2 ⟨other, rfl⟩)
        rw [← hother, hpath, dropIndex_append front hi] at this
        rw [this, String.ofList_toList]
      · exact absurd ((hindex (String.ofList front) index).2 (by simpa using hpath)) (hnone _ _)
  · push Not at h
    rw [dropIndex_eq_self (fun front digits hi => h front digits hi), String.ofList_toList]
    have hnone : ∀ (front : String) (index : Nat), path ≠ front ++ "/" ++ toString index :=
      fun front index heq => h _ _ (isIndex_iff.2 ⟨index, rfl⟩) ((hindex front index).1 heq)
    constructor
    · rintro rfl
      exact Or.inr ⟨rfl, hnone⟩
    · rintro (⟨index, heq⟩ | ⟨heq, -⟩)
      · exact absurd heq (hnone _ _)
      · exact heq

end Value

end Extractor.Json
