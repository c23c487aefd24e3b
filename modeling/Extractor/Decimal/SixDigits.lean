/-!
# Numbers with six digits

The text of a binary64 number, given by its bits: its exact value is rounded to six significant
decimal digits, a half to the even neighbour. Exponents from -4 to 5 are written without an
exponent, others with a sign and at least two digits; zeros at the end of a fraction are dropped.
-/

namespace Extractor.Decimal

/-- A positive fraction in binary64, `significand * 2 ^ exponent`. -/
structure Binary where
  significand : Nat
  exponent : Int
  deriving DecidableEq, Repr

/-- What the bits of a number say. -/
inductive Number where
  | finite (isNegative : Bool) (magnitude : Binary)
  | infinite (isNegative : Bool)
  | notANumber
  deriving DecidableEq, Repr

def Number.ofBits (bits : UInt64) : Number :=
  let isNegative := bits >>> 63 == 1
  let exponent := ((bits >>> 52) &&& 0x7FF).toNat
  let fraction := (bits &&& 0xFFFFFFFFFFFFF).toNat
  if exponent = 0x7FF then
    if fraction = 0 then .infinite isNegative else .notANumber
  else if exponent = 0 then .finite isNegative ⟨fraction, -1074⟩
  else .finite isNegative ⟨0x10000000000000 + fraction, (exponent : Int) - 1075⟩

/-- Numerator and denominator. -/
def Binary.ratio (b : Binary) : Nat × Nat :=
  (b.significand * Nat.pow 2 b.exponent.toNat, Nat.pow 2 (-b.exponent).toNat)

/-- The nearest natural number to a fraction, of two nearest ones the even one. -/
def roundHalfEven (num den : Nat) : Nat :=
  let quotient := num / den
  let twice := 2 * (num % den)
  if twice < den then quotient
  else if den < twice then quotient + 1
  else quotient + quotient % 2

/-- Number of decimal digits, one for zero. -/
def digitCount (n : Nat) : Nat := if n < 10 then 1 else digitCount (n / 10) + 1
termination_by n

/-- The decimal exponent of a positive fraction: `10 ^ e ≤ num / den < 10 ^ (e + 1)`. -/
def decimalExponent (num den : Nat) : Int :=
  if den ≤ num then digitCount (num / den) - 1
  else
    let k := digitCount (den / num)
    if den ≤ num * Nat.pow 10 (k - 1) then -((k : Int) - 1) else -(k : Int)

/-- A decimal number, `digits * 10 ^ (exponent - 5)`, with six digits. -/
structure Rounded where
  digits : Nat
  exponent : Int
  deriving DecidableEq, Repr

/-- A positive fraction rounded to six significant digits. -/
def sixDigits (num den : Nat) : Rounded :=
  let exponent := decimalExponent num den
  let digits := roundHalfEven (num * Nat.pow 10 (5 - exponent).toNat)
    (den * Nat.pow 10 (exponent - 5).toNat)
  if digits = 1000000 then ⟨100000, exponent + 1⟩ else ⟨digits, exponent⟩

/-- The decimal digits of a number, with zeros in front up to the given width. -/
def paddedDigits (width n : Nat) : List Char :=
  let digits := Nat.toDigits 10 n
  List.replicate (width - digits.length) '0' ++ digits

/-- The number `n / 10 ^ decimals`, with so many digits behind the point. -/
def pointed (decimals n : Nat) : List Char :=
  Nat.toDigits 10 (n / Nat.pow 10 decimals) ++
    if decimals = 0 then [] else '.' :: paddedDigits decimals (n % Nat.pow 10 decimals)

/-- Without the zeros at the end of a fraction, and without the point if nothing follows it. -/
def trimFraction (text : List Char) : List Char :=
  if text.contains '.' then
    ((text.reverse.dropWhile (· == '0')).dropWhile (· == '.')).reverse
  else text

/-- The exponent after its mark. -/
def exponentText (exponent : Int) : List Char :=
  (if exponent < 0 then '-' else '+') :: paddedDigits 2 exponent.natAbs

def Rounded.scientific (d : Rounded) : List Char :=
  trimFraction (pointed 5 d.digits) ++ 'e' :: exponentText d.exponent

/-- A positive fraction rounded to so many digits behind the point. -/
def fixed (decimals num den : Nat) : List Char :=
  trimFraction (pointed decimals (roundHalfEven (num * Nat.pow 10 decimals) den))

/-- The text of a positive fraction. Its exponent is the one of the rounded fraction; without an
exponent in the text, the fraction is rounded again, to the decimals its exponent leaves. -/
def ratioText (num den : Nat) : List Char :=
  let rounded := sixDigits num den
  if rounded.exponent < -4 ∨ 6 ≤ rounded.exponent then rounded.scientific
  else fixed (5 - rounded.exponent).toNat num den

def sign (isNegative : Bool) : List Char := if isNegative then ['-'] else []

def Number.text : Number → List Char
  | .notANumber => ['N', 'a', 'N']
  | .infinite isNegative => sign isNegative ++ ['i', 'n', 'f']
  | .finite isNegative magnitude =>
    if magnitude.significand = 0 then ['0']
    else
      let (num, den) := magnitude.ratio
      sign isNegative ++ ratioText num den

/-- The text of the number with the given bits. -/
def text (bits : UInt64) : String := String.ofList (Number.ofBits bits).text

end Extractor.Decimal
