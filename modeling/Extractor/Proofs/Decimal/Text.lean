import Extractor.Proofs.Decimal.Numeral
import Extractor.Proofs.Decimal.Rounding

/-!
# The text of a number

A finite number that is not zero is written as the numeral of its exact value, rounded half to
even to six significant digits.
-/

namespace Extractor.Decimal

/-! ## Binary64 -/

/-- The biased exponent, bits 52 to 62. -/
def biasedExponent (bits : UInt64) : ℕ := bits.toNat / 2 ^ 52 % 2 ^ 11

/-- The 52 bits of the significand that are stored. -/
def storedFraction (bits : UInt64) : ℕ := bits.toNat % 2 ^ 52

/-- Neither infinite nor no number at all: those have all bits of the exponent set. -/
def IsFinite (bits : UInt64) : Prop := biasedExponent bits ≠ 2047

/-- The value of a finite number: the leading bit of the significand is not stored, unless the
number is subnormal. -/
def exactValue (bits : UInt64) : ℚ :=
  (-1) ^ (bits.toNat / 2 ^ 63) *
    if biasedExponent bits = 0 then (2 : ℚ) ^ (-1022 : ℤ) * (storedFraction bits / 2 ^ 52)
    else (2 : ℚ) ^ ((biasedExponent bits : ℤ) - 1023) * (1 + storedFraction bits / 2 ^ 52)

def Binary.value (b : Binary) : ℚ := b.significand * 2 ^ b.exponent

theorem toNat_exponentBits (bits : UInt64) :
    ((bits >>> 52) &&& 0x7FF).toNat = biasedExponent bits := by
  rw [UInt64.toNat_and, UInt64.toNat_shiftRight, Nat.shiftRight_eq_div_pow]
  exact Nat.and_two_pow_sub_one_eq_mod _ 11

theorem toNat_fractionBits (bits : UInt64) :
    (bits &&& 0xFFFFFFFFFFFFF).toNat = storedFraction bits := by
  rw [UInt64.toNat_and]
  exact Nat.and_two_pow_sub_one_eq_mod _ 52

theorem neg_one_pow_signBit (bits : UInt64) :
    (-1 : ℚ) ^ (bits.toNat / 2 ^ 63) = if bits >>> 63 == 1 then -1 else 1 := by
  have htop : (bits >>> 63).toNat = bits.toNat / 2 ^ 63 := by
    rw [UInt64.toNat_shiftRight, Nat.shiftRight_eq_div_pow]
    rfl
  have hlt := bits.toNat_lt
  rw [← htop]
  split_ifs with h
  · rw [beq_iff_eq.1 h, UInt64.toNat_one, pow_one]
  · have hne : (bits >>> 63).toNat ≠ 1 := fun heq => h (beq_iff_eq.2 (UInt64.toNat_inj.1 heq))
    rw [show (bits >>> 63).toNat = 0 by omega, pow_zero]

theorem scaled_significand (significand : ℚ) (e : ℤ) :
    2 ^ e * (significand / 2 ^ 52) = significand * 2 ^ (e - 52) := by
  rw [zpow_sub₀ two_ne_zero, zpow_ofNat]
  ring

/-- The sign and the magnitude of a finite number are read off its bits. -/
theorem ofBits_of_isFinite {bits : UInt64} (h : IsFinite bits) :
    ∃ isNegative magnitude, Number.ofBits bits = .finite isNegative magnitude ∧
      exactValue bits = (if isNegative then -1 else 1) * magnitude.value := by
  unfold Number.ofBits exactValue
  dsimp only
  rw [toNat_exponentBits, toNat_fractionBits, neg_one_pow_signBit, if_neg h]
  by_cases hsubnormal : biasedExponent bits = 0
  · rw [if_pos hsubnormal, if_pos hsubnormal]
    refine ⟨_, _, rfl, ?_⟩
    rw [Binary.value, scaled_significand]
    norm_num
  · rw [if_neg hsubnormal, if_neg hsubnormal]
    refine ⟨_, _, rfl, ?_⟩
    have hleading : (1 : ℚ) + storedFraction bits / 2 ^ 52 =
        (0x10000000000000 + storedFraction bits : ℕ) / 2 ^ 52 := by
      push_cast
      norm_num [add_div]
    rw [Binary.value, hleading, scaled_significand, sub_sub]
    norm_num

theorem ratio_pos (b : Binary) (h : b.significand ≠ 0) : 0 < b.ratio.1 ∧ 0 < b.ratio.2 := by
  rw [Binary.ratio, Nat.pow_eq, Nat.pow_eq]
  have := Nat.pos_of_ne_zero h
  constructor <;> positivity

theorem ratio_value (b : Binary) : (b.ratio.1 : ℚ) / b.ratio.2 = b.value := by
  rw [Binary.ratio, Binary.value, Nat.pow_eq, Nat.pow_eq]
  push_cast
  rcases le_total b.exponent 0 with h | h
  · rw [Int.toNat_of_nonpos h, pow_zero, mul_one, ← zpow_natCast, Int.toNat_of_nonneg (by omega),
      zpow_neg, div_inv_eq_mul]
  · rw [Int.toNat_of_nonpos (by omega : -b.exponent ≤ 0), pow_zero, div_one, ← zpow_natCast,
      Int.toNat_of_nonneg h]

/-! ## Six digits as a numeral -/

/-- The numeral of six digits: those of a mantissa with five decimals and an exponent, or as many
behind the point as the exponent leaves. -/
def Rounded.numeral (isNegative : Bool) (d : Rounded) : Numeral :=
  if d.exponent < -4 ∨ 6 ≤ d.exponent then
    .ofPointed isNegative 5 d.digits
      (some (d.exponent < 0, paddedDigits 2 d.exponent.natAbs))
  else .ofPointed isNegative (5 - d.exponent).toNat d.digits none

section Rounded

variable {d : Rounded} (isNegative : Bool)

theorem exponentValue_natAbs (e : ℤ) (width : ℕ) :
    Numeral.exponentValue (some (e < 0, paddedDigits width e.natAbs)) = e := by
  rw [Numeral.exponentValue, digitsValue_paddedDigits]
  split_ifs with h
  · rw [decide_eq_true_iff] at h
    omega
  · rw [decide_eq_true_iff] at h
    omega

theorem Rounded.value_numeral :
    (d.numeral isNegative).value = (if isNegative then -1 else 1) * d.value := by
  by_cases h : d.exponent < -4 ∨ 6 ≤ d.exponent
  · rw [Rounded.numeral, if_pos h, Numeral.value_ofPointed, exponentValue_natAbs, Rounded.value,
      zpow_sub₀ (by norm_num), zpow_ofNat]
    ring
  · rw [Rounded.numeral, if_neg h, Numeral.value_ofPointed, Numeral.exponentValue, Rounded.value,
      zpow_sub_five (by omega), zpow_zero, mul_one, div_eq_mul_inv]

theorem Rounded.Full.regular_numeral (h : d.Full) : (d.numeral isNegative).Regular := by
  unfold Rounded.numeral
  have hlow := h.low
  have hhigh := h.high
  split_ifs
  · refine Numeral.regular_ofPointed fun sign digits heq => ?_
    obtain ⟨rfl, rfl⟩ := Prod.mk.inj (Option.some.inj heq)
    exact ⟨by omega, length_paddedDigits _ _, digits_paddedDigits _ _⟩
  · exact Numeral.regular_ofPointed fun sign digits heq => absurd heq.symm (by simp)

theorem Rounded.exponent_numeral :
    (d.numeral isNegative).exponent = none ↔ -4 ≤ d.exponent ∧ d.exponent < 6 := by
  unfold Rounded.numeral Numeral.ofPointed
  split_ifs with h
  · simp only [false_iff]
    omega
  · simp only [true_iff]
    omega

/-- The text of a fraction is the one of its rounded digits, though those are computed anew
where the text has no exponent. -/
theorem text_numeral {num den : ℕ} (hnum : 0 < num) (hden : 0 < den) :
    ((sixDigits num den).numeral isNegative).text = sign isNegative ++ ratioText num den := by
  unfold Rounded.numeral ratioText
  dsimp only
  split_ifs with h
  · rw [Numeral.text_ofPointed, Rounded.scientific, exponentText, Numeral.mark]
    simp only [decide_eq_true_eq]
  · rw [Numeral.text_ofPointed, fixed, roundHalfEven_again hnum hden (by omega), Numeral.mark,
      List.append_nil]

end Rounded

/-- **Six significant digits.** Let `r` be the exact value of a finite number that is not zero,
rounded half to even to six significant decimal digits, and `e` its decimal exponent. The text
reads as a numeral of `r`. It has an exponent, of two digits or more, unless `-4 ≤ e < 6`, no zeros
at the end of its fraction, and no point without one. -/
theorem text_sixSignificant {bits : UInt64} (hfinite : IsFinite bits)
    (hne : exactValue bits ≠ 0) :
    let r := sixSignificant (exactValue bits)
    let e := Int.log 10 |r|
    let n := Numeral.read (text bits).toList
    ((10 : ℚ) ^ e ≤ |r| ∧ |r| < 10 ^ (e + 1)) ∧
      n.text = (text bits).toList ∧ n.Regular ∧ n.value = r ∧
      (n.exponent = none ↔ -4 ≤ e ∧ e < 6) := by
  intro r e n
  obtain ⟨isNegative, magnitude, hbits, hexact⟩ := ofBits_of_isFinite hfinite
  have hsignificand : magnitude.significand ≠ 0 := by
    intro hzero
    exact hne (by rw [hexact, Binary.value, hzero]; simp)
  obtain ⟨hnum, hden⟩ := ratio_pos magnitude hsignificand
  have hfull := sixDigits_full hnum hden
  have hvalue := sixDigits_value hnum hden
  have htext : (text bits).toList =
      ((sixDigits magnitude.ratio.1 magnitude.ratio.2).numeral isNegative).text := by
    rw [text_numeral isNegative hnum hden, text, String.toList_ofList, hbits, Number.text,
      if_neg hsignificand]
  -- only the rounded digits matter from here on, no longer the fraction they come from
  generalize sixDigits magnitude.ratio.1 magnitude.ratio.2 = d at *
  have hregular := hfull.regular_numeral isNegative
  have hn : n = d.numeral isNegative := by
    rw [← hregular.read_text, ← htext]
  have hr : r = (if isNegative then -1 else 1) * d.value := by
    rw [hvalue, ratio_value]
    change sixSignificant (exactValue bits) = _
    rw [hexact]
    cases isNegative
    · simp
    · simp [sixSignificant_neg]
  have hpos : 0 < d.value := (ten_zpow_pos _).trans_le hfull.bounds.1
  have habs : |r| = d.value := by
    rw [hr, abs_mul, abs_of_pos hpos]
    cases isNegative <;> simp
  have he : e = d.exponent := by
    change Int.log 10 |r| = _
    rw [habs]
    exact log_eq_of_bounds hfull.bounds.1 hfull.bounds.2
  rw [he, habs, hn, htext]
  exact ⟨hfull.bounds, rfl, hregular, by rw [Rounded.value_numeral, hr],
    Rounded.exponent_numeral isNegative⟩

/-- The six digits of 999999.5 carry, and with them the exponent leaves the plain notation. -/
theorem text_sixSignificant_carry :
    IsFinite 0x412E847F00000000 ∧ exactValue 0x412E847F00000000 = 1999999 / 2 ∧
      text 0x412E847F00000000 = "1e+06" ∧
      (Numeral.read (text 0x412E847F00000000).toList).value = sixSignificant (1999999 / 2) := by
  have hbiased : biasedExponent 0x412E847F00000000 = 1042 := by decide +kernel
  have hstored : storedFraction 0x412E847F00000000 = 0xE847F00000000 := by decide +kernel
  have hsign : (0x412E847F00000000 : UInt64).toNat / 2 ^ 63 = 0 := by decide +kernel
  have hfinite : IsFinite 0x412E847F00000000 := by
    rw [IsFinite, hbiased]
    decide
  have hvalue : exactValue 0x412E847F00000000 = 1999999 / 2 := by
    rw [exactValue, hsign, hbiased, hstored]
    norm_num
  have hread := text_sixSignificant hfinite (by rw [hvalue]; norm_num)
  exact ⟨hfinite, hvalue, by decide +kernel, hvalue ▸ hread.2.2.2.1⟩

example : text 0x40C8000000000000 = "12288" ∧ text 0x412E848000000000 = "1e+06" ∧
    text 0xBF847AE147AE147B = "-0.01" := by decide +kernel

end Extractor.Decimal
