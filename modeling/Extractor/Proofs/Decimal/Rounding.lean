import Mathlib.Algebra.Order.Field.Power
import Mathlib.Algebra.Order.Floor.Semifield
import Mathlib.Data.Int.Log
import Mathlib.Data.Rat.Floor
import Mathlib.Tactic.Linarith
import Mathlib.Tactic.NormNum
import Mathlib.Tactic.Positivity
import Mathlib.Tactic.Ring
import Extractor.Decimal.SixDigits

/-!
# Rounding to six digits

Half to even over the rational numbers, and the roundings of a fraction against it: the exponent
of a fraction is its logarithm, the six digits are those of the rounded fraction, also where they
carry into a seventh, and rounding the fraction again to the decimals that this exponent leaves
gives the same digits.
-/

namespace Extractor.Decimal

/-! ## Half to even -/

/-- The nearest integer, of two nearest ones the even one. -/
def roundEven (x : ℚ) : ℤ :=
  if Int.fract x < 1 / 2 then ⌊x⌋
  else if 1 / 2 < Int.fract x then ⌊x⌋ + 1
  else if Even ⌊x⌋ then ⌊x⌋ else ⌊x⌋ + 1

/-- No integer is nearer to `x` than `n`, and `n` is even if another one is as near. -/
structure Nearest (x : ℚ) (n : ℤ) : Prop where
  near : |x - n| ≤ 1 / 2
  even : |x - n| = 1 / 2 → Even n

variable {x : ℚ} {n m : ℤ}

theorem nearest_roundEven (x : ℚ) : Nearest x (roundEven x) := by
  have hfract : x = ⌊x⌋ + Int.fract x := (Int.floor_add_fract x).symm
  have hnonneg := Int.fract_nonneg x
  have hlt := Int.fract_lt_one x
  have hbelow : |x - ⌊x⌋| = Int.fract x := by
    rw [Int.self_sub_floor, abs_of_nonneg hnonneg]
  have habove : |x - (⌊x⌋ + 1 : ℤ)| = 1 - Int.fract x := by
    rw [abs_of_nonpos (by push_cast; linarith)]
    push_cast
    linarith
  unfold roundEven
  split_ifs with hless hmore heven
  · exact ⟨by linarith, fun h => by linarith⟩
  · exact ⟨by linarith, fun h => by linarith⟩
  · exact ⟨by linarith, fun _ => heven⟩
  · exact ⟨by linarith, fun _ => (Int.not_even_iff_odd.1 heven).add_one⟩

theorem Nearest.unique (hn : Nearest x n) (hm : Nearest x m) : n = m := by
  by_contra hne
  have hdist : (1 : ℚ) ≤ |(n : ℚ) - m| := by
    exact_mod_cast Int.one_le_abs (sub_ne_zero.2 hne)
  have htriangle : |(n : ℚ) - m| ≤ |x - m| + |x - n| := by
    rw [show (n : ℚ) - m = (x - m) - (x - n) by ring]
    exact abs_sub _ _
  -- both lie half way off, so both are even and one apart
  have hnear := hn.near
  have hnear' := hm.near
  have hneven := hn.even (by linarith)
  have hmeven := hm.even (by linarith)
  have hone : |n - m| ≤ 1 := by
    have : |(n : ℚ) - m| ≤ 1 := by linarith
    exact_mod_cast this
  obtain ⟨a, rfl⟩ := hneven
  obtain ⟨b, rfl⟩ := hmeven
  rw [abs_le] at hone
  omega

theorem Nearest.roundEven_eq (h : Nearest x n) : roundEven x = n :=
  (nearest_roundEven x).unique h

theorem roundEven_neg (x : ℚ) : roundEven (-x) = -roundEven x := by
  refine Nearest.roundEven_eq ?_
  have habs : |-x - ((-roundEven x : ℤ) : ℚ)| = |x - roundEven x| := by
    rw [← abs_neg]
    congr 1
    push_cast
    ring
  have h := nearest_roundEven x
  exact ⟨habs ▸ h.near, fun heq => (h.even (habs ▸ heq)).neg⟩

/-- Where a number is nearest to a multiple of ten, one digit less has no tie left. -/
theorem Nearest.tenth (h : Nearest x (10 * n)) : Nearest (x / 10) n := by
  have hnear := h.near
  have hdist : |x / 10 - n| = |x - (10 * n : ℤ)| / 10 := by
    rw [show x / 10 - n = (x - (10 * n : ℤ)) / 10 by push_cast; ring, abs_div]
    norm_num
  exact ⟨by linarith, fun htie => by linarith⟩

theorem nearest_roundHalfEven (num : ℕ) {den : ℕ} (hden : 0 < den) :
    Nearest (num / den) (roundHalfEven num den) := by
  have hpos : (0 : ℚ) < den := by exact_mod_cast hden
  have hdiv : (num : ℚ) / den = (num / den : ℕ) + (num % den : ℕ) / den := by
    rw [div_eq_iff hpos.ne', add_mul, div_mul_cancel₀ _ hpos.ne']
    exact_mod_cast (Nat.div_add_mod' num den).symm
  have hrest := Nat.mod_lt num hden
  unfold roundHalfEven
  dsimp only
  rw [hdiv]
  generalize num / den = quotient at *
  generalize num % den = rest at *
  have hnonneg : (0 : ℚ) ≤ rest / den := by positivity
  have hone : (rest : ℚ) / den < 1 := (div_lt_one hpos).2 (by exact_mod_cast hrest)
  have hbelow : |(quotient : ℚ) + rest / den - (quotient : ℤ)| = rest / den := by
    rw [Int.cast_natCast, add_sub_cancel_left, abs_of_nonneg hnonneg]
  have habove : |(quotient : ℚ) + rest / den - (quotient + 1 : ℕ)| = 1 - rest / den := by
    rw [abs_of_nonpos (by push_cast; linarith)]
    push_cast
    ring
  rw [← Int.cast_natCast (quotient + 1)] at habove
  split_ifs with hless hmore
  · have hlt : (rest : ℚ) / den < 1 / 2 := by
      rw [div_lt_div_iff₀ hpos two_pos]
      exact_mod_cast (by omega : rest * 2 < 1 * den)
    exact ⟨by linarith, fun h => by linarith⟩
  · have hgt : (1 / 2 : ℚ) < rest / den := by
      rw [div_lt_div_iff₀ two_pos hpos]
      exact_mod_cast (by omega : 1 * den < rest * 2)
    exact ⟨by linarith, fun h => by linarith⟩
  · have heq : (rest : ℚ) / den = 1 / 2 := by
      rw [div_eq_div_iff hpos.ne' two_ne_zero]
      exact_mod_cast (by omega : rest * 2 = 1 * den)
    have heven : Even ((quotient + quotient % 2 : ℕ) : ℤ) := by
      rw [Int.even_coe_nat, Nat.even_iff]
      omega
    rcases Nat.mod_two_eq_zero_or_one quotient with hmod | hmod <;> rw [hmod] at heven ⊢
    · exact ⟨(hbelow.trans heq).le, fun _ => heven⟩
    · exact ⟨by linarith, fun _ => heven⟩

/-! ## The exponent -/

theorem ten_zpow_pos (e : ℤ) : (0 : ℚ) < 10 ^ e := zpow_pos (by norm_num) e

theorem log_eq_of_bounds {e : ℤ} (hlow : (10 : ℚ) ^ e ≤ x) (hhigh : x < 10 ^ (e + 1)) :
    Int.log 10 x = e := by
  have hx : 0 < x := (ten_zpow_pos e).trans_le hlow
  have h₁ := (Int.zpow_le_iff_le_log (b := 10) (by decide) hx).1 (by exact_mod_cast hlow)
  have h₂ := (Int.lt_zpow_iff_log_lt (b := 10) (by decide) hx).1 (by exact_mod_cast hhigh)
  omega

theorem log_bounds (hx : 0 < x) : (10 : ℚ) ^ Int.log 10 x ≤ x ∧ x < 10 ^ (Int.log 10 x + 1) :=
  ⟨by exact_mod_cast Int.zpow_log_le_self (b := 10) (by decide) hx,
    by exact_mod_cast Int.lt_zpow_succ_log_self (b := 10) (by decide) x⟩

theorem digitCount_eq (n : ℕ) : digitCount n = Nat.log 10 n + 1 := by
  fun_induction digitCount n with
  | case1 n h => rw [Nat.log_of_lt h]
  | case2 n h ih => rw [ih, Nat.log_of_one_lt_of_le (b := 10) (n := n) (by decide) (by omega)]

theorem decimalExponent_eq {num den : ℕ} (hnum : 0 < num) (hden : 0 < den) :
    decimalExponent num den = Int.log 10 (num / den : ℚ) := by
  have hn : (0 : ℚ) < num := by exact_mod_cast hnum
  have hd : (0 : ℚ) < den := by exact_mod_cast hden
  unfold decimalExponent
  simp only [digitCount_eq, Nat.pow_eq]
  split_ifs with hle hpower
  · have hone : (1 : ℚ) ≤ num / den := by
      rw [one_le_div hd]
      exact_mod_cast hle
    rw [Int.log_of_one_le_right _ hone, Nat.floor_div_eq_div]
    push_cast
    ring
  -- below one, the quotient the other way round has k digits behind its first
  all_goals
    have hone : den / num ≠ 0 := (Nat.div_pos (by omega) hnum).ne'
    have hlow : (num : ℚ) * 10 ^ Nat.log 10 (den / num) ≤ den := by
      have := Nat.pow_log_le_self 10 hone
      rw [Nat.le_div_iff_mul_le hnum, mul_comm] at this
      exact_mod_cast this
    have hhigh : (den : ℚ) < num * 10 ^ (Nat.log 10 (den / num) + 1) := by
      have := Nat.lt_pow_succ_log_self (b := 10) (by decide) (den / num)
      rw [Nat.div_lt_iff_lt_mul hnum, mul_comm] at this
      exact_mod_cast this
    generalize Nat.log 10 (den / num) = k at *
    symm
  · have heq : (num : ℚ) / den = 10 ^ (-(k : ℤ)) := by
      have hge : (den : ℚ) ≤ num * 10 ^ k := by exact_mod_cast hpower
      rw [zpow_neg, zpow_natCast, div_eq_iff hd.ne', inv_mul_eq_div, eq_div_iff (by positivity)]
      exact hlow.antisymm hge
    rw [show -(((k + 1 : ℕ) : ℤ) - 1) = -(k : ℤ) by push_cast; ring, heq]
    exact log_eq_of_bounds le_rfl (zpow_lt_zpow_right₀ (by norm_num) (by omega))
  · have hlt : (num : ℚ) * 10 ^ k < den := by
      exact_mod_cast (by simpa using hpower : num * 10 ^ k < den)
    refine log_eq_of_bounds ?_ ?_
    · rw [zpow_neg, zpow_natCast, inv_le_comm₀ (by positivity) (by positivity), inv_div,
        div_le_iff₀ hn, mul_comm]
      exact hhigh.le
    · rw [show -((k + 1 : ℕ) : ℤ) + 1 = -(k : ℤ) by push_cast; ring, zpow_neg, zpow_natCast,
        lt_inv_comm₀ (by positivity) (by positivity), inv_div, lt_div_iff₀ hn, mul_comm]
      exact hlt

theorem zpow_sub_five {e : ℤ} (he : e ≤ 5) : (10 : ℚ) ^ (e - 5) = (10 ^ (5 - e).toNat)⁻¹ := by
  rw [← zpow_natCast, Int.toNat_of_nonneg (by omega), ← zpow_neg, neg_sub]

theorem sixDigits_scale (num den : ℕ) (e : ℤ) :
    ((num * Nat.pow 10 (5 - e).toNat : ℕ) : ℚ) / (den * Nat.pow 10 (e - 5).toNat : ℕ) =
      num / den / 10 ^ (e - 5) := by
  rw [Nat.pow_eq, Nat.pow_eq]
  push_cast
  rcases le_total e 5 with he | he
  · rw [zpow_sub_five he, Int.toNat_of_nonpos (by omega : e - 5 ≤ 0), pow_zero, mul_one, div_inv_eq_mul,
      mul_div_right_comm]
  · have hpow : (10 : ℚ) ^ (e - 5) = 10 ^ (e - 5).toNat := by
      rw [← zpow_natCast, Int.toNat_of_nonneg (by omega)]
    rw [hpow, Int.toNat_of_nonpos (by omega : 5 - e ≤ 0), pow_zero, mul_one, div_div]

/-- With the decimals that an exponent leaves, a fraction has the digits nearest to it there. -/
theorem roundHalfEven_eq_of_nearest {num den digits : ℕ} (hden : 0 < den) {e : ℤ} (he : e ≤ 5)
    (h : Nearest (num / den / 10 ^ (e - 5)) digits) :
    roundHalfEven (num * Nat.pow 10 (5 - e).toNat) den = digits := by
  have hscale := sixDigits_scale num den e
  rw [Int.toNat_of_nonpos (by omega : e - 5 ≤ 0), show Nat.pow 10 0 = 1 from rfl, mul_one] at hscale
  rw [← hscale] at h
  exact_mod_cast (nearest_roundHalfEven _ hden).unique h

/-! ## Six digits -/

/-- A number rounded half to even to six significant decimal digits. -/
def sixSignificant (v : ℚ) : ℚ :=
  roundEven (v / 10 ^ (Int.log 10 |v| - 5)) * 10 ^ (Int.log 10 |v| - 5)

theorem sixSignificant_neg (v : ℚ) : sixSignificant (-v) = -sixSignificant v := by
  rw [sixSignificant, sixSignificant, abs_neg, neg_div, roundEven_neg, Int.cast_neg, neg_mul]

theorem hundredThousand_mul_zpow (e : ℤ) : (100000 : ℚ) * 10 ^ (e - 5) = 10 ^ e := by
  rw [show (100000 : ℚ) = 10 ^ (5 : ℤ) by norm_num, ← zpow_add₀ (by norm_num), add_sub_cancel]

theorem million_mul_zpow (e : ℤ) : (1000000 : ℚ) * 10 ^ (e - 5) = 10 ^ (e + 1) := by
  rw [← hundredThousand_mul_zpow (e + 1), add_sub_right_comm, zpow_add_one₀ (by norm_num)]
  ring

/-- A positive number, scaled so that six digits stand before its point. -/
theorem scaled_bounds (hx : 0 < x) :
    100000 ≤ x / 10 ^ (Int.log 10 x - 5) ∧ x / 10 ^ (Int.log 10 x - 5) < 1000000 := by
  rw [le_div_iff₀ (ten_zpow_pos _), div_lt_iff₀ (ten_zpow_pos _), hundredThousand_mul_zpow,
    million_mul_zpow]
  exact log_bounds hx

theorem Nearest.bounds (h : Nearest x n) (hlow : (m : ℚ) ≤ x) {k : ℤ} (hhigh : x < k) :
    m ≤ n ∧ n ≤ k := by
  have hnear := abs_le.1 h.near
  constructor
  · have : (m : ℚ) < (n + 1 : ℤ) := by push_cast; linarith
    exact Int.lt_add_one_iff.1 (by exact_mod_cast this)
  · have : (n : ℚ) < (k + 1 : ℤ) := by push_cast; linarith
    exact Int.lt_add_one_iff.1 (by exact_mod_cast this)

/-- The number that the digits and the exponent stand for. -/
def Rounded.value (d : Rounded) : ℚ := d.digits * 10 ^ (d.exponent - 5)

/-- Six digits, the first of which is not zero. -/
structure Rounded.Full (d : Rounded) : Prop where
  low : 100000 ≤ d.digits
  high : d.digits < 1000000

theorem Rounded.Full.bounds {d : Rounded} (h : d.Full) :
    (10 : ℚ) ^ d.exponent ≤ d.value ∧ d.value < 10 ^ (d.exponent + 1) := by
  have hlow : (100000 : ℚ) ≤ d.digits := by exact_mod_cast h.low
  have hhigh : (d.digits : ℚ) < 1000000 := by exact_mod_cast h.high
  rw [← hundredThousand_mul_zpow d.exponent, ← million_mul_zpow, Rounded.value]
  exact ⟨mul_le_mul_of_nonneg_right hlow (ten_zpow_pos _).le,
    mul_lt_mul_of_pos_right hhigh (ten_zpow_pos _)⟩

section Fraction

variable {num den : ℕ} (hnum : 0 < num) (hden : 0 < den)
include hnum hden

/-- What rounding a fraction gives: the digits nearest to its scaled value, or, where those are
a one and six zeros, the first six of them with the next exponent. -/
theorem sixDigits_cases :
    let v : ℚ := num / den
    let e := Int.log 10 v
    (∃ n : ℕ, (Rounded.mk n e).Full ∧ Nearest (v / 10 ^ (e - 5)) n ∧ sixDigits num den = ⟨n, e⟩) ∨
      (Nearest (v / 10 ^ (e - 5)) 1000000 ∧ sixDigits num den = ⟨100000, e + 1⟩) := by
  intro v e
  have hv : 0 < v := by positivity
  have hscaled : 0 < den * Nat.pow 10 (e - 5).toNat := by
    rw [Nat.pow_eq]
    positivity
  have hnear := nearest_roundHalfEven (num * Nat.pow 10 (5 - e).toNat) hscaled
  rw [sixDigits_scale] at hnear
  -- from 10 ^ 5 up to below 10 ^ 6, so only rounding up to 10 ^ 6 can leave the six digits
  obtain ⟨hlow, hhigh⟩ := scaled_bounds hv
  have hbounds := hnear.bounds (m := 100000) (k := 1000000) (by exact_mod_cast hlow)
    (by exact_mod_cast hhigh)
  unfold sixDigits
  dsimp only
  rw [decimalExponent_eq hnum hden]
  split_ifs with hcarry
  · rw [hcarry] at hnear
    exact .inr ⟨hnear, rfl⟩
  · have hle := hbounds.1
    have hlt : roundHalfEven (num * Nat.pow 10 (5 - e).toNat)
        (den * Nat.pow 10 (e - 5).toNat) < 1000000 :=
      lt_of_le_of_ne (by exact_mod_cast hbounds.2) hcarry
    exact .inl ⟨_, ⟨by exact_mod_cast hle, hlt⟩, hnear, rfl⟩

theorem sixDigits_full : (sixDigits num den).Full := by
  rcases sixDigits_cases hnum hden with ⟨n, hfull, _, heq⟩ | ⟨_, heq⟩
  · exact heq ▸ hfull
  · rw [heq]
    exact ⟨le_rfl, by norm_num⟩

theorem sixDigits_value : (sixDigits num den).value = sixSignificant (num / den) := by
  have hv : (0 : ℚ) < num / den := by positivity
  rw [sixSignificant, abs_of_pos hv]
  rcases sixDigits_cases hnum hden with ⟨n, _, hnear, heq⟩ | ⟨hnear, heq⟩
  · rw [heq, hnear.roundEven_eq, Rounded.value, Int.cast_natCast]
  · rw [heq, hnear.roundEven_eq, Rounded.value, add_sub_right_comm, zpow_add_one₀ (by norm_num)]
    push_cast
    ring

/-- Rounding again, to as many decimals as the exponent of the rounded fraction leaves, gives the
same digits. -/
theorem roundHalfEven_again (hle : (sixDigits num den).exponent ≤ 5) :
    roundHalfEven (num * Nat.pow 10 (5 - (sixDigits num den).exponent).toNat) den =
      (sixDigits num den).digits := by
  refine roundHalfEven_eq_of_nearest hden hle ?_
  rcases sixDigits_cases hnum hden with ⟨n, _, hnear, heq⟩ | ⟨hnear, heq⟩
  · rw [heq]
    exact hnear
  · rw [heq, add_sub_right_comm, zpow_add_one₀ (by norm_num), ← div_div]
    exact hnear.tenth

end Fraction

end Extractor.Decimal
