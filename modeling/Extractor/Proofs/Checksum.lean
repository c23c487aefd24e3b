import Extractor.Key
import Mathlib.Algebra.BigOperators.Fin
import Mathlib.Data.Nat.ModEq
import Mathlib.Tactic.Ring
/-!
# Sums of bytes and their letters

The checksum of some bytes is made of their sum and of the sum of these sums, each modulo a prime
(`Sums.Stands.foldl`), and no addition on the way exceeds a word. Six digits to the base 26 keep of
a checksum what is left of it modulo 26 ^ 6, so two texts have the same letters exactly if their
checksums agree modulo this number (`letters_eq_iff`). The variables of two keys are told apart by
the letters of their written forms.
-/

namespace Extractor

namespace Checksum

/-! ## The two sums -/

/-- Adding the byte exceeds a word at no point. -/
structure Sums.Fits (s : Sums) (byte : UInt8) : Prop where
  low : s.low.toNat + byte.toNat < UInt32.size
  high : s.high.toNat + (s.add byte).low.toNat < UInt32.size

/-- What the sums are without their modulus. -/
structure Sums.Stands (s : Sums) (low high : Nat) : Prop where
  low : s.low.toNat = low % 65521
  high : s.high.toNat = high % 65521

section

variable {s : Sums} {low high : Nat} {byte : UInt8} {bytes : List UInt8}

theorem Sums.Stands.low_add (h : s.Stands low high) (byte : UInt8) :
    (s.add byte).low.toNat = (low + byte.toNat) % 65521 := by
  have hbyte := byte.toNat_lt
  have hlow := h.low
  have hsum : (s.low + byte.toUInt32).toNat = s.low.toNat + byte.toNat := by
    rw [UInt32.toNat_add, UInt8.toNat_toUInt32]
    omega
  show ((s.low + byte.toUInt32) % modulus).toNat = _
  rw [UInt32.toNat_mod, hsum]
  show (s.low.toNat + byte.toNat) % 65521 = _
  omega

theorem Sums.Stands.fits (h : s.Stands low high) (byte : UInt8) : s.Fits byte := by
  have hbyte := byte.toNat_lt
  have hlow := h.low
  have hhigh := h.high
  have hnext := h.low_add byte
  have hsize : UInt32.size = 4294967296 := rfl
  constructor <;> omega

/-- A byte goes to the first sum, and the new first sum to the second. -/
theorem Sums.Stands.add (h : s.Stands low high) (byte : UInt8) :
    (s.add byte).Stands (low + byte.toNat) (high + low + byte.toNat) := by
  refine ⟨h.low_add byte, ?_⟩
  have hfits := (h.fits byte).high
  have hlow := h.low_add byte
  have hhigh := h.high
  have hsum : (s.high + (s.add byte).low).toNat = s.high.toNat + (s.add byte).low.toNat := by
    rw [UInt32.toNat_add]
    exact Nat.mod_eq_of_lt hfits
  show ((s.high + (s.add byte).low) % modulus).toNat = _
  rw [UInt32.toNat_mod, hsum]
  show (s.high.toNat + (s.add byte).low.toNat) % 65521 = _
  omega

/-- The sum of all bytes. -/
def byteSum (bytes : List UInt8) : Nat := ∑ i : Fin bytes.length, bytes[i].toNat

/-- The sum of all bytes, each as often as there are bytes from it on. -/
def weightedSum (bytes : List UInt8) : Nat :=
  ∑ i : Fin bytes.length, (bytes.length - i) * bytes[i].toNat

theorem byteSum_cons (byte : UInt8) (bytes : List UInt8) :
    byteSum (byte :: bytes) = byte.toNat + byteSum bytes := Fin.sum_univ_succ _

theorem weightedSum_cons (byte : UInt8) (bytes : List UInt8) :
    weightedSum (byte :: bytes) = (bytes.length + 1) * byte.toNat + weightedSum bytes := by
  refine (Fin.sum_univ_succ _).trans (congrArg₂ (· + ·) rfl (Finset.sum_congr rfl fun i _ => ?_))
  exact congrArg (· * bytes[i].toNat) (Nat.add_sub_add_right bytes.length 1 i)

/-- The sums after some bytes more. The first one counts in the second once for each byte. -/
theorem Sums.Stands.foldl (h : s.Stands low high) (bytes : List UInt8) :
    (bytes.foldl Sums.add s).Stands (low + byteSum bytes)
      (high + bytes.length * low + weightedSum bytes) := by
  induction bytes generalizing s low high with
  | nil => simpa [byteSum, weightedSum] using h
  | cons byte bytes ih =>
    have hrest := ih (h.add byte)
    rw [List.foldl_cons, byteSum_cons, weightedSum_cons, List.length_cons]
    convert hrest using 1 <;> ring

theorem stands_foldl (bytes : List UInt8) :
    (bytes.foldl Sums.add .empty).Stands (1 + byteSum bytes)
      (bytes.length + weightedSum bytes) := by
  have hempty : Sums.empty.Stands 1 0 := ⟨rfl, rfl⟩
  simpa using hempty.foldl bytes

theorem Sums.Stands.toNat_toWord (h : s.Stands low high) :
    s.toWord.toNat = high % 65521 * 65536 + low % 65521 := by
  -- Both sums are below 2 ^ 16, so the shift loses nothing and the halves share no bit.
  have hlow : s.low.toNat < 2 ^ 16 := by
    rw [h.low]
    omega
  have hhigh : (s.high <<< 16).toNat = 2 ^ 16 * s.high.toNat := by
    rw [UInt32.toNat_shiftLeft]
    show s.high.toNat <<< 16 % 2 ^ 32 = _
    rw [Nat.shiftLeft_eq, h.high]
    omega
  rw [toWord, UInt32.toNat_or, hhigh, ← Nat.two_pow_add_eq_or_of_lt hlow, h.low, h.high]
  omega

end

/-! ## Letters -/

theorem digit_lt (value : UInt32) : (value % 26).toNat < 26 := by
  rw [UInt32.toNat_mod]
  exact Nat.mod_lt _ (by decide)

theorem letter_inj {d e : UInt32} (hd : d.toNat < 26) (he : e.toNat < 26) :
    letter d = letter e ↔ d.toNat = e.toNat := by
  have hvalid : ∀ n < 26, (Char.ofNat ('A'.toNat + n)).toNat = 65 + n := by decide
  constructor
  · intro h
    have htoNat : (letter d).toNat = (letter e).toNat := congrArg Char.toNat h
    rw [letter, letter, hvalid _ hd, hvalid _ he] at htoNat
    omega
  · intro h
    rw [letter, letter, h]

/-- The digits that are kept are those of the rest modulo a power of the base. -/
theorem digits_eq_iff (n : Nat) (value other : UInt32) :
    digits n value = digits n other ↔ value.toNat ≡ other.toNat [MOD 26 ^ n] := by
  induction n generalizing value other with
  | zero => simp [digits, Nat.modEq_one]
  | succ n ih =>
    have hfirst : letter (value % 26) = letter (other % 26) ↔ value.toNat % 26 = other.toNat % 26 := by
      rw [letter_inj (digit_lt value) (digit_lt other), UInt32.toNat_mod, UInt32.toNat_mod]
      rfl
    rw [digits, digits, List.cons.injEq, hfirst, ih, Nat.ModEq, Nat.ModEq, UInt32.toNat_div,
      UInt32.toNat_div, Nat.pow_succ', Nat.mod_mul, Nat.mod_mul]
    change _ ∧ value.toNat / 26 % 26 ^ n = other.toNat / 26 % 26 ^ n ↔ _
    omega

/-- The checksum of the UTF-8 bytes of a text. -/
def ofText (text : String) : Nat := (adler text.toUTF8.toList).toNat

/-- **What letters keep of a checksum.** -/
theorem letters_eq_iff (text other : String) :
    letters text = letters other ↔ ofText text ≡ ofText other [MOD 26 ^ 6] := by
  rw [letters, letters, String.ofList_inj, digits_eq_iff, ofText, ofText]

theorem length_letters (text : String) : (letters text).toList.length = 6 := by
  rw [letters, String.toList_ofList, length_digits]

theorem mem_digits {n : Nat} {value : UInt32} {c : Char} (h : c ∈ digits n value) :
    'A' ≤ c ∧ c ≤ 'Z' := by
  have hletter : ∀ digit < 26, 'A' ≤ Char.ofNat ('A'.toNat + digit) ∧
      Char.ofNat ('A'.toNat + digit) ≤ 'Z' := by decide
  induction n generalizing value with
  | zero => cases h
  | succ n ih =>
    rcases List.mem_cons.1 h with rfl | h
    · exact hletter _ (digit_lt value)
    · exact ih h

theorem mem_letters {text : String} {c : Char} (h : c ∈ (letters text).toList) :
    'A' ≤ c ∧ c ≤ 'Z' := by
  rw [letters, String.toList_ofList] at h
  exact mem_digits h

/-- **The letters are those of two sums of the bytes.** No addition on the way exceeds a word, the
checksum is made of the sum of the bytes and of the sum of these sums, and two texts have the same
six letters exactly if their checksums agree modulo 26 ^ 6. -/
theorem adler_letters (bytes : List UInt8) (text other : String) :
    (∀ i : Fin bytes.length, ((bytes.take i).foldl Sums.add .empty).Fits bytes[i]) ∧
      (adler bytes).toNat =
        (bytes.length + ∑ i : Fin bytes.length, (bytes.length - i) * bytes[i].toNat) % 65521 *
            65536 +
          (1 + ∑ i : Fin bytes.length, bytes[i].toNat) % 65521 ∧
      ((letters text).toList.length = 6 ∧ ∀ c ∈ (letters text).toList, 'A' ≤ c ∧ c ≤ 'Z') ∧
      (letters text = letters other ↔ ofText text ≡ ofText other [MOD 26 ^ 6]) := by
  have hbytes := stands_foldl bytes
  exact ⟨fun i => (stands_foldl (bytes.take i)).fits bytes[i], hbytes.toNat_toWord,
    ⟨length_letters text, fun _ => mem_letters⟩, letters_eq_iff text other⟩

example : adler "Wikipedia".toUTF8.toList = 0x11E60398 ∧ letters "Wikipedia" = "CJBDHZ" := by
  decide +kernel

end Checksum

namespace Key

theorem variableName_eq_iff (k other : Key) :
    k.variableName = other.variableName ↔
      Checksum.ofText k.written ≡ Checksum.ofText other.written [MOD 26 ^ 6] := by
  rw [← Checksum.letters_eq_iff, variableName, variableName, String.append_right_inj]

theorem length_variableName (k : Key) : k.variableName.toList.length = 11 := by
  rw [variableName, String.toList_append, List.length_append, Checksum.length_letters]
  rfl

end Key

end Extractor
