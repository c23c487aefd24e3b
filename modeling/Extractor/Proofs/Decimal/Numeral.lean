import Mathlib.Algebra.Order.Field.Power
import Mathlib.Data.List.DropRight
import Mathlib.Tactic.Positivity
import Mathlib.Tactic.Ring
import Extractor.Decimal.SixDigits

/-!
# Decimal numerals

The parts of a decimal number as it is written, the number they stand for, and how they are read
off a text. Digits with a point in front of the last of them, cut by `trimFraction`, are such a
numeral: the cut drops nothing but zeros at the end of the fraction.
-/

namespace Extractor.Decimal

/-- The sign, the digits before and behind the point, and the sign and the digits of an exponent. -/
structure Numeral where
  isNegative : Bool
  whole : List Char
  fraction : List Char
  exponent : Option (Bool × List Char)
  deriving DecidableEq

def Digits (text : List Char) : Prop := ∀ c ∈ text, c.isDigit = true

def digitsValue (digits : List Char) : ℕ := Nat.ofDigitChars 10 digits 0

/-- The number that digits behind a point stand for. -/
def fractionValue (digits : List Char) : ℚ := digitsValue digits / 10 ^ digits.length

/-- The point is written only in front of a fraction. -/
def behindPoint (fraction : List Char) : List Char :=
  if fraction = [] then [] else '.' :: fraction

namespace Numeral

def exponentValue : Option (Bool × List Char) → ℤ
  | none => 0
  | some (isNegative, digits) => if isNegative then -digitsValue digits else digitsValue digits

def value (n : Numeral) : ℚ :=
  (if n.isNegative then -1 else 1) * (digitsValue n.whole + fractionValue n.fraction) *
    10 ^ exponentValue n.exponent

def mantissa (n : Numeral) : List Char := n.whole ++ behindPoint n.fraction

def mark : Option (Bool × List Char) → List Char
  | none => []
  | some (isNegative, digits) => 'e' :: (if isNegative then '-' else '+') :: digits

def text (n : Numeral) : List Char := sign n.isNegative ++ (n.mantissa ++ mark n.exponent)

def unsigned (text : List Char) : List Char :=
  if text.head? = some '-' then text.tail else text

def readExponent : List Char → Option (Bool × List Char)
  | _ :: sign :: digits => some (sign == '-', digits)
  | _ => none

/-- The parts of a text: a minus in front, what stands before the mark of the exponent, cut at the
point, and what follows the mark. -/
def read (text : List Char) : Numeral :=
  let mantissa := (unsigned text).takeWhile (· != 'e')
  { isNegative := text.head? = some '-'
    whole := mantissa.takeWhile (· != '.')
    fraction := (mantissa.dropWhile (· != '.')).tail
    exponent := readExponent ((unsigned text).dropWhile (· != 'e')) }

/-- Whole digits without zeros in front, a fraction without zeros at its end; with an exponent, of
two digits or more, one digit before the point that is not zero. -/
structure Regular (n : Numeral) : Prop where
  whole : ∃ k, n.whole = Nat.toDigits 10 k
  fraction : Digits n.fraction
  trimmed : n.fraction.getLast? ≠ some '0'
  exponent : ∀ isNegative digits, n.exponent = some (isNegative, digits) →
    (∃ d, 0 < d ∧ d < 10 ∧ n.whole = Nat.toDigits 10 d) ∧ 2 ≤ digits.length ∧ Digits digits

end Numeral

/-! ## Digits -/

variable {digits : List Char} {decimals n : ℕ} {c : Char}

theorem Digits.append {l m : List Char} (hl : Digits l) (hm : Digits m) : Digits (l ++ m) :=
  List.forall_mem_append.2 ⟨hl, hm⟩

theorem Digits.of_prefix {l m : List Char} (hm : Digits m) (h : l <+: m) : Digits l :=
  fun c hc => hm c (h.subset hc)

theorem digits_toDigits (n : ℕ) : Digits (Nat.toDigits 10 n) :=
  fun _ h => Nat.isDigit_of_mem_toDigits (by decide) (by decide) h

theorem Digits.ne (h : Digits digits) (hc : c.isDigit = false) : ∀ d ∈ digits, d ≠ c := by
  rintro d hd rfl
  rw [h d hd] at hc
  contradiction

@[simp] theorem digitsValue_toDigits (n : ℕ) : digitsValue (Nat.toDigits 10 n) = n :=
  Nat.ofDigitChars_ten_toDigits

theorem digitsValue_zeros_append (k : ℕ) (digits : List Char) :
    digitsValue (List.replicate k '0' ++ digits) = digitsValue digits := by
  rw [digitsValue, Nat.ofDigitChars_append, Nat.ofDigitChars_replicate_zero, mul_zero, digitsValue]

theorem digitsValue_append_zeros (digits : List Char) (k : ℕ) :
    digitsValue (digits ++ List.replicate k '0') = 10 ^ k * digitsValue digits := by
  rw [digitsValue, Nat.ofDigitChars_append, Nat.ofDigitChars_replicate_zero, digitsValue]

theorem fractionValue_append_zeros (digits : List Char) (k : ℕ) :
    fractionValue (digits ++ List.replicate k '0') = fractionValue digits := by
  rw [fractionValue, fractionValue, digitsValue_append_zeros, List.length_append,
    List.length_replicate, pow_add, div_eq_div_iff (by positivity) (by positivity)]
  push_cast
  ring

theorem digits_paddedDigits (width n : ℕ) : Digits (paddedDigits width n) := by
  refine Digits.append (fun c hc => ?_) (digits_toDigits n)
  rw [List.eq_of_mem_replicate hc]
  rfl

theorem length_paddedDigits (width n : ℕ) : width ≤ (paddedDigits width n).length := by
  simp [paddedDigits]
  omega

theorem length_paddedDigits_of_lt (hd : 0 < decimals) (hn : n < 10 ^ decimals) :
    (paddedDigits decimals n).length = decimals := by
  have := (Nat.length_toDigits_le_iff (b := 10) (by decide) hd).2 hn
  simp [paddedDigits]
  omega

@[simp] theorem digitsValue_paddedDigits (width n : ℕ) :
    digitsValue (paddedDigits width n) = n := by
  rw [paddedDigits, digitsValue_zeros_append, digitsValue_toDigits]

/-! ## Zeros at the end -/

theorem rdropWhile_append_zeros (digits : List Char) :
    ∃ k, digits = digits.rdropWhile (· == '0') ++ List.replicate k '0' := by
  refine ⟨(digits.rtakeWhile (· == '0')).length, ?_⟩
  rw [← List.eq_replicate_iff.2 ⟨rfl, fun c hc => by simpa using List.mem_rtakeWhile_imp hc⟩,
    List.rdropWhile_append_rtakeWhile]

theorem fractionValue_rdropWhile (digits : List Char) :
    fractionValue (digits.rdropWhile (· == '0')) = fractionValue digits := by
  obtain ⟨k, hk⟩ := rdropWhile_append_zeros digits
  conv_rhs => rw [hk, fractionValue_append_zeros]

theorem getLast?_rdropWhile_ne (digits : List Char) :
    (digits.rdropWhile (· == '0')).getLast? ≠ some '0' := by
  intro h
  have hne : digits.rdropWhile (· == '0') ≠ [] := by
    rintro heq
    rw [heq] at h
    contradiction
  rw [List.getLast?_eq_some_getLast hne, Option.some.injEq] at h
  exact List.rdropWhile_last_not _ _ hne (by simp [h])

theorem rdropWhile_cons_append {p : Char → Bool} {l : List Char} (c : Char) (hc : p c = false)
    (m : List Char) : (l ++ c :: m).rdropWhile p = l ++ c :: m.rdropWhile p := by
  induction m using List.reverseRecOn with
  | nil => rw [List.rdropWhile_concat_neg _ _ _ (by simp [hc]), List.rdropWhile_nil]
  | append_singleton m d ih =>
    rw [← List.cons_append, ← List.append_assoc]
    by_cases hd : p d
    · rw [List.rdropWhile_concat_pos _ _ _ hd, List.rdropWhile_concat_pos _ _ _ hd, ih]
    · rw [List.rdropWhile_concat_neg _ _ _ hd, List.rdropWhile_concat_neg _ _ _ hd]
      simp

theorem rdropWhile_point (hne : digits ≠ []) (h : Digits digits) (front : List Char) :
    (front ++ digits).rdropWhile (· == '.') = front ++ digits := by
  rw [List.rdropWhile_eq_self_iff]
  intro hl
  rw [List.getLast_append_of_ne_nil _ hne, beq_iff_eq]
  exact h.ne rfl _ (List.getLast_mem hne)

/-! ## Digits with a point -/

/-- The digits behind the point without the zeros at their end. -/
def fractionDigits (decimals n : ℕ) : List Char :=
  (if decimals = 0 then [] else paddedDigits decimals (n % 10 ^ decimals)).rdropWhile (· == '0')

theorem digits_fractionDigits (decimals n : ℕ) : Digits (fractionDigits decimals n) := by
  refine Digits.of_prefix ?_ (List.rdropWhile_prefix _ _)
  split
  · exact fun c hc => absurd hc List.not_mem_nil
  · exact digits_paddedDigits _ _

theorem fractionValue_fractionDigits (decimals n : ℕ) :
    fractionValue (fractionDigits decimals n) = (n % 10 ^ decimals : ℕ) / 10 ^ decimals := by
  rw [fractionDigits, fractionValue_rdropWhile]
  split_ifs with hzero
  · simp [hzero, Nat.mod_one, fractionValue, digitsValue]
  · rw [fractionValue, digitsValue_paddedDigits,
      length_paddedDigits_of_lt (by omega) (Nat.mod_lt _ (by positivity))]

/-- The number is its whole part and its fraction. -/
theorem whole_add_fraction (decimals n : ℕ) :
    (digitsValue (Nat.toDigits 10 (n / 10 ^ decimals)) : ℚ) +
      fractionValue (fractionDigits decimals n) = n / 10 ^ decimals := by
  rw [fractionValue_fractionDigits, digitsValue_toDigits, eq_div_iff (by positivity), add_mul,
    div_mul_cancel₀ _ (by positivity)]
  exact_mod_cast Nat.div_add_mod' n (10 ^ decimals)

theorem trimFraction_digits (h : Digits digits) : trimFraction digits = digits := by
  rw [trimFraction, if_neg]
  rw [List.contains_iff_mem]
  exact fun hmem => h.ne rfl _ hmem rfl

theorem trimFraction_point {whole fraction : List Char} (hne : whole ≠ []) (hwhole : Digits whole)
    (hfraction : Digits fraction) :
    trimFraction (whole ++ '.' :: fraction) =
      whole ++ behindPoint (fraction.rdropWhile (· == '0')) := by
  have hcut : trimFraction (whole ++ '.' :: fraction) =
      (whole ++ '.' :: fraction.rdropWhile (· == '0')).rdropWhile (· == '.') := by
    rw [trimFraction, if_pos (by simp), ← rdropWhile_cons_append '.' rfl, List.rdropWhile,
      List.rdropWhile, List.reverse_reverse]
  -- the point is dropped only if no digit is left behind it, and then the whole digits stop the cut
  have hkept := hfraction.of_prefix (List.rdropWhile_prefix (· == '0') fraction)
  rw [hcut, behindPoint]
  split_ifs with hnil
  · rw [hnil, List.rdropWhile_concat_pos _ _ _ rfl, List.append_nil]
    exact rdropWhile_point hne hwhole []
  · rw [List.append_cons, rdropWhile_point hnil hkept]

theorem trimFraction_pointed (decimals n : ℕ) :
    trimFraction (pointed decimals n) =
      Nat.toDigits 10 (n / 10 ^ decimals) ++ behindPoint (fractionDigits decimals n) := by
  have hwhole := digits_toDigits (n / 10 ^ decimals)
  rw [pointed, Nat.pow_eq, fractionDigits]
  split_ifs with hzero
  · rw [List.append_nil, trimFraction_digits hwhole, List.rdropWhile_nil, behindPoint, if_pos rfl,
      List.append_nil]
  · exact trimFraction_point Nat.toDigits_ne_nil hwhole (digits_paddedDigits _ _)

/-! ## Numerals with a given number of decimals -/

namespace Numeral

/-- The numeral of `n / 10 ^ decimals`, times the power of ten of an exponent. -/
def ofPointed (isNegative : Bool) (decimals n : ℕ) (exponent : Option (Bool × List Char)) :
    Numeral :=
  ⟨isNegative, Nat.toDigits 10 (n / 10 ^ decimals), fractionDigits decimals n, exponent⟩

variable {isNegative : Bool} {exponent : Option (Bool × List Char)}

theorem text_ofPointed : (ofPointed isNegative decimals n exponent).text =
    sign isNegative ++ (trimFraction (pointed decimals n) ++ mark exponent) := by
  rw [trimFraction_pointed]
  rfl

theorem value_ofPointed : (ofPointed isNegative decimals n exponent).value =
    (if isNegative then -1 else 1) * (n / 10 ^ decimals) * 10 ^ exponentValue exponent := by
  rw [← whole_add_fraction]
  rfl

theorem regular_ofPointed (hexponent : ∀ isNegative digits, exponent = some (isNegative, digits) →
    (0 < n / 10 ^ decimals ∧ n / 10 ^ decimals < 10) ∧ 2 ≤ digits.length ∧ Digits digits) :
    (ofPointed isNegative decimals n exponent).Regular where
  whole := ⟨_, rfl⟩
  fraction := digits_fractionDigits decimals n
  trimmed := getLast?_rdropWhile_ne _
  exponent := fun isNegative digits h =>
    have ⟨⟨hpos, hlt⟩, hrest⟩ := hexponent isNegative digits h
    ⟨⟨_, hpos, hlt, rfl⟩, hrest⟩

end Numeral

/-! ## Reading a numeral -/

theorem takeWhile_cut {l m : List Char} (hl : ∀ d ∈ l, d ≠ c) (hm : ∀ d ∈ m.head?, d = c) :
    (l ++ m).takeWhile (· != c) = l ∧ (l ++ m).dropWhile (· != c) = m := by
  have hall : ∀ d ∈ l, (d != c) = true := fun d hd => bne_iff_ne.2 (hl d hd)
  rw [List.takeWhile_append_of_pos hall, List.dropWhile_append_of_pos hall]
  cases m with
  | nil => simp
  | cons d m => simp [hm d rfl]

namespace Numeral

variable {n : Numeral}

theorem Regular.digits_whole (h : n.Regular) : Digits n.whole := by
  obtain ⟨k, hk⟩ := h.whole
  exact hk ▸ digits_toDigits k

theorem Regular.head?_ne (h : n.Regular) : (n.mantissa ++ mark n.exponent).head? ≠ some '-' := by
  obtain ⟨k, hk⟩ := h.whole
  obtain ⟨d, rest, heq⟩ := List.exists_cons_of_ne_nil (hk ▸ Nat.toDigits_ne_nil : n.whole ≠ [])
  rw [mantissa, heq]
  exact fun hd => h.digits_whole.ne rfl d (heq ▸ List.mem_cons_self) (Option.some.inj hd)

theorem Regular.not_mem_mantissa (h : n.Regular) : ∀ d ∈ n.mantissa, d ≠ 'e' := by
  rw [mantissa, behindPoint, List.forall_mem_append]
  refine ⟨h.digits_whole.ne rfl, ?_⟩
  split_ifs
  · exact fun d hd => absurd hd List.not_mem_nil
  · exact List.forall_mem_cons.2 ⟨by decide, h.fraction.ne rfl⟩

theorem Regular.unsigned_text (h : n.Regular) :
    unsigned n.text = n.mantissa ++ mark n.exponent := by
  cases hsign : n.isNegative
  · rw [text, hsign, unsigned, sign, if_neg Bool.false_ne_true, List.nil_append, if_neg h.head?_ne]
  · rw [text, hsign]
    rfl

theorem readExponent_mark (exponent : Option (Bool × List Char)) :
    readExponent (mark exponent) = exponent := by
  rcases exponent with _ | ⟨isNegative, digits⟩
  · rfl
  · cases isNegative <;> rfl

theorem tail_behindPoint (fraction : List Char) : (behindPoint fraction).tail = fraction := by
  cases fraction <;> rfl

/-- A numeral is read off its text. -/
theorem Regular.read_text (h : n.Regular) : read n.text = n := by
  have hsign : decide (n.text.head? = some '-') = n.isNegative := by
    cases hsign : n.isNegative
    · rw [text, hsign]
      exact decide_eq_false h.head?_ne
    · rw [text, hsign]
      rfl
  have hmark : ∀ d ∈ (mark n.exponent).head?, d = 'e' := by
    rcases n.exponent with _ | ⟨isNegative, digits⟩ <;> simp [mark]
  have hpoint : ∀ d ∈ (behindPoint n.fraction).head?, d = '.' := by
    cases n.fraction <;> simp [behindPoint]
  obtain ⟨hmantissa, hexponent⟩ := takeWhile_cut h.not_mem_mantissa hmark
  obtain ⟨hwhole, hfraction⟩ := takeWhile_cut (h.digits_whole.ne rfl) hpoint
  rw [read, h.unsigned_text, hmantissa, hexponent, hsign, readExponent_mark,
    mantissa, hwhole, hfraction, tail_behindPoint]

example : read "-1.5e+10".toList = ⟨true, ['1'], ['5'], some (false, ['1', '0'])⟩ := by decide

end Numeral

end Extractor.Decimal
