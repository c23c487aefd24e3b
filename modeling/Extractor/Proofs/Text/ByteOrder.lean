import Mathlib.Data.String.Basic
import Mathlib.Tactic.IntervalCases
import Mathlib.Tactic.Positivity
/-!
# Texts in the order of their bytes

Texts are compared by code points, and their UTF-8 bytes compare the same way (`bytes_lt_bytes`).
The lead byte of a character grows with the number of bytes behind it (`lead_lt_lead`), and all
bytes of a character together are the digits of its code point to the base 64, the highest first
(`utf8EncodeChar_eq`).
-/

namespace Extractor.Text

/-- The UTF-8 bytes of a text. -/
def bytes (text : String) : List UInt8 := text.toUTF8.data.toList

/-- The first code point with `n` bytes behind its lead byte. -/
def lowest : Nat → Nat
  | 0 => 0
  | 1 => 0x80
  | 2 => 0x800
  | 3 => 0x10000
  | _ => 0x110000

/-- What the number of bytes behind it adds to a lead byte. -/
def leadMark : Nat → Nat
  | 0 => 0
  | 1 => 192
  | 2 => 224
  | _ => 240

/-- The lead byte of a code point with `n` bytes behind it. -/
def lead (n value : Nat) : Nat := value / 64 ^ n + leadMark n

/-- The last `n` digits to the base 64, each with the mark of a byte that is not the first. -/
def trailing : Nat → Nat → List UInt8
  | 0, _ => []
  | n + 1, value => UInt8.ofNat (value / 64 ^ n % 64 + 128) :: trailing n value

/-- The code point has `n` bytes behind its lead byte. -/
structure Takes (n value : Nat) : Prop where
  le_three : n ≤ 3
  lowest_le : lowest n ≤ value
  lt_lowest : value < lowest (n + 1)

section

variable {m n value other : Nat} {c d : Char} {rest rest' : List UInt8}

/-! ## The bytes of a character -/

theorem utf8EncodeChar_eq (c : Char) : ∃ n, Takes n c.toNat ∧
    String.utf8EncodeChar c = UInt8.ofNat (lead n c.toNat) :: trailing n c.toNat := by
  have hvalid : c.val.toNat < 0x110000 := by
    have := c.valid
    simp only [UInt32.isValidChar, Nat.isValidChar] at this
    omega
  unfold String.utf8EncodeChar Char.toNat
  generalize c.val.toNat = value at hvalid ⊢
  dsimp only
  split_ifs with h0 h1 h2
  · exact ⟨0, ⟨by decide, Nat.zero_le _, Nat.lt_succ_of_le h0⟩, by simp [trailing, lead, leadMark]⟩
  · refine ⟨1, ⟨by decide, by simp only [lowest]; omega, Nat.lt_succ_of_le h1⟩, ?_⟩
    have hlead : value / 64 % 32 = value / 64 := Nat.mod_eq_of_lt (by omega)
    rw [hlead]
    simp [trailing, lead, leadMark]
  · refine ⟨2, ⟨by decide, by simp only [lowest]; omega, Nat.lt_succ_of_le h2⟩, ?_⟩
    have hlead : value / 4096 % 16 = value / 4096 := Nat.mod_eq_of_lt (by omega)
    rw [hlead]
    simp [trailing, lead, leadMark]
  · refine ⟨3, ⟨by decide, by simp only [lowest]; omega, hvalid⟩, ?_⟩
    have hlead : value / 262144 % 8 = value / 262144 := Nat.mod_eq_of_lt (by omega)
    rw [hlead]
    simp [trailing, lead, leadMark]

theorem ofNat_cons_lt_ofNat_cons (h : value < other) (hother : other < 256) :
    UInt8.ofNat value :: rest < UInt8.ofNat other :: rest' :=
  List.cons_lt_cons_iff.2 (.inl ((UInt8.ofNat_lt_iff_lt (h.trans hother) hother).2 h))

/-- Digits compare as the numbers that they make up. -/
theorem trailing_append_lt (h : value % 64 ^ n < other % 64 ^ n) (rest rest' : List UInt8) :
    trailing n value ++ rest < trailing n other ++ rest' := by
  induction n with
  | zero =>
    rw [Nat.pow_zero, Nat.mod_one, Nat.mod_one] at h
    exact absurd h (Nat.lt_irrefl 0)
  | succ n ih =>
    rw [Nat.pow_succ, Nat.mod_mul, Nat.mod_mul] at h
    rw [trailing, trailing, List.cons_append, List.cons_append]
    rcases Nat.lt_trichotomy (value / 64 ^ n % 64) (other / 64 ^ n % 64) with hlt | heq | hgt
    · exact ofNat_cons_lt_ofNat_cons (by omega) (by omega)
    · rw [heq] at h ⊢
      exact List.cons_lt_cons_iff.2 (.inr ⟨rfl, ih (Nat.lt_of_add_lt_add_right h)⟩)
    · have hlow : value % 64 ^ n < 64 ^ n := Nat.mod_lt _ (by positivity)
      have hlow' : other % 64 ^ n < 64 ^ n := Nat.mod_lt _ (by positivity)
      have hdigit : 64 ^ n * (other / 64 ^ n % 64 + 1) ≤ 64 ^ n * (value / 64 ^ n % 64) :=
        Nat.mul_le_mul_left _ hgt
      rw [Nat.mul_add_one] at hdigit
      omega

theorem Takes.le (h : Takes m value) (h' : Takes n other) (hlt : value < other) : m ≤ n := by
  obtain ⟨hm, hlow, -⟩ := h
  obtain ⟨hn, -, hhigh⟩ := h'
  by_contra hgt
  interval_cases m <;> interval_cases n <;> simp only [lowest] at hlow hhigh <;> omega

theorem Takes.lead_lt (h : Takes n value) : lead n value < 256 := by
  obtain ⟨hn, -, hhigh⟩ := h
  unfold lead
  interval_cases n <;> simp only [lowest, leadMark] at hhigh ⊢ <;> omega

/-- More bytes make a greater lead byte, whatever the code points are. -/
theorem lead_lt_lead (h : Takes m value) (h' : Takes n other) (hlt : m < n) :
    lead m value < lead n other := by
  obtain ⟨-, -, hhigh⟩ := h
  obtain ⟨hn, -, -⟩ := h'
  unfold lead
  interval_cases n <;> interval_cases m <;> simp only [lowest, leadMark] at hhigh ⊢ <;> omega

/-- What follows two characters does not change how they compare. -/
theorem utf8EncodeChar_append_lt (h : c < d) (rest rest' : List UInt8) :
    String.utf8EncodeChar c ++ rest < String.utf8EncodeChar d ++ rest' := by
  have hlt : c.toNat < d.toNat := h
  obtain ⟨m, hm, hc⟩ := utf8EncodeChar_eq c
  obtain ⟨n, hn, hd⟩ := utf8EncodeChar_eq d
  rw [hc, hd, List.cons_append, List.cons_append]
  rcases (hm.le hn hlt).lt_or_eq with hshort | rfl
  · exact ofNat_cons_lt_ofNat_cons (lead_lt_lead hm hn hshort) hn.lead_lt
  · have hdigits : c.toNat / 64 ^ m ≤ d.toNat / 64 ^ m := Nat.div_le_div_right hlt.le
    rcases hdigits.lt_or_eq with hhigh | hsame
    · exact ofNat_cons_lt_ofNat_cons (Nat.add_lt_add_right hhigh _) hn.lead_lt
    · have hlow : c.toNat % 64 ^ m < d.toNat % 64 ^ m := by
        have hcut := Nat.div_add_mod c.toNat (64 ^ m)
        have hcut' := Nat.div_add_mod d.toNat (64 ^ m)
        rw [hsame] at hcut
        omega
      rw [lead, lead, hsame]
      exact List.cons_lt_cons_iff.2 (.inr ⟨rfl, trailing_append_lt hlow rest rest'⟩)

theorem utf8EncodeChar_ne_nil (c : Char) : String.utf8EncodeChar c ≠ [] := by
  obtain ⟨n, -, hc⟩ := utf8EncodeChar_eq c
  rw [hc]
  exact List.cons_ne_nil _ _

/-! ## The bytes of a text -/

theorem flatMap_utf8EncodeChar_lt {s t : List Char} (h : s < t) :
    s.flatMap String.utf8EncodeChar < t.flatMap String.utf8EncodeChar := by
  induction s generalizing t with
  | nil =>
    cases t with
    | nil => exact absurd h (List.not_lt_nil _)
    | cons d t =>
      obtain ⟨byte, more, hd⟩ := List.exists_cons_of_ne_nil (utf8EncodeChar_ne_nil d)
      rw [List.flatMap_nil, List.flatMap_cons, hd]
      exact List.nil_lt_cons _ _
  | cons c s ih =>
    cases t with
    | nil => exact absurd h (List.not_lt_nil _)
    | cons d t =>
      rw [List.flatMap_cons, List.flatMap_cons]
      rcases List.cons_lt_cons_iff.1 h with hlt | ⟨rfl, hlt⟩
      · exact utf8EncodeChar_append_lt hlt _ _
      · exact List.append_left_lt (ih hlt)

theorem bytes_eq (text : String) : bytes text = text.toList.flatMap String.utf8EncodeChar := by
  rw [bytes, String.toUTF8_eq_toByteArray, ← String.utf8Encode_toList, List.utf8Encode,
    List.toList_data_toByteArray]

/-- **Bytes compare as their texts do.** -/
theorem bytes_lt_bytes {text other : String} (h : text < other) : bytes text < bytes other := by
  rw [bytes_eq, bytes_eq]
  exact flatMap_utf8EncodeChar_lt (String.lt_iff_toList_lt.1 h)

end

end Extractor.Text
