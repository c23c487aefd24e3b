import Extractor.Json.Step
import Extractor.Text.Numeral
/-!
# JSON numbers

The digits of a number go into a significand of 64 bits while they fit. Further digits before the
point raise the exponent, further digits after it are dropped. The significand is then multiplied
or divided by the power of ten in binary64, each operation with its own rounding.
-/

namespace Extractor.Json.Number

/-- The largest significand. -/
def maxSignificand : Nat := 0xFFFFFFFFFFFFFFFF

/-- The largest exponent that can be written. -/
def maxExponent : Nat := 0x7FFFFFFF

/-- The significand after the digits before the point, and how many digits did not fit. -/
def absorbWhole (significand : Nat) : List Char → Nat × Nat
  | [] => (significand, 0)
  | c :: rest =>
    let next := significand * 10 + Text.digitValue c
    if next ≤ maxSignificand then absorbWhole next rest else (significand, rest.length + 1)

/-- The significand after the digits behind the point, and how many of them it took in. -/
def absorbFraction (significand : Nat) : List Char → Nat × Nat
  | [] => (significand, 0)
  | c :: rest =>
    let next := significand * 10 + Text.digitValue c
    if next ≤ maxSignificand then
      let (final, taken) := absorbFraction next rest
      (final, taken + 1)
    else (significand, 0)

def powerOfTen (k : Nat) : Float := Float.ofScientific 1 false k

/-- Divides by a power of ten, in steps if it is beyond the largest one in binary64. -/
def divide (x : Float) (k : Nat) : Float :=
  if h : k ≤ 308 then x / powerOfTen k
  else if x == 0 then x
  else divide (x / powerOfTen 308) (k - 308)
termination_by k

/-- `significand * 10 ^ exponent`, or `none` if it is beyond binary64. -/
def scale (significand : Nat) (exponent : Int) : Option Float :=
  let x := significand.toUInt64.toFloat
  if exponent < 0 then some (divide x exponent.natAbs)
  else if 308 < exponent then if x == 0 then some x else none
  else
    let y := x * powerOfTen exponent.toNat
    if y.isInf then none else some y

def withSign (isNegative : Bool) (x : Float) : UInt64 := (if isNegative then -x else x).toBits

/-- Ends a number before the given text. -/
def finish (isNegative : Bool) (significand : Nat) (exponent : Int) (rest : List Char) :
    Result UInt64 :=
  match scale significand exponent with
  | some x => .ok (withSign isNegative x)
  | none => failAt .numberOutOfRange rest

/-- The digits of an exponent up to the one with which it gets too large, and what follows. -/
def exponentDigits (value : Nat) : List Char → Option Nat × List Char
  | [] => (some value, [])
  | c :: rest =>
    if c.isDigit then
      let next := value * 10 + Text.digitValue c
      if next ≤ maxExponent then exponentDigits next rest else (none, rest)
    else (some value, c :: rest)

theorem length_exponentDigits_le (value : Nat) (text : List Char) :
    (exponentDigits value text).2.length ≤ text.length := by
  induction text generalizing value with
  | nil => simp [exponentDigits]
  | cons c rest ih =>
    simp only [exponentDigits]
    split
    · split
      · exact Nat.le_succ_of_le (ih _)
      · simp
    · simp

/-- The digits of a number that can be read up to its end. -/
theorem dropDigits_suffix (text : List Char) : text.dropWhile Char.isDigit <:+ text :=
  List.dropWhile_suffix _

/-- Reads the digits of an exponent, the first of which is given. -/
def readShift (isNegative : Bool) (significand : Nat) (exponent : Int) (isMinus : Bool)
    (first : Char) (text : List Char) : Result (Remainder text UInt64) :=
  match h : exponentDigits (Text.digitValue first) text with
  | (some shift, rest) => do
    let shift : Int := if isMinus then -(shift : Int) else shift
    let bits ← finish isNegative significand (exponent + shift) rest
    return ⟨bits, rest, by
      have := length_exponentDigits_le (Text.digitValue first) text
      rwa [h] at this⟩
  | (none, rest) =>
    if significand ≠ 0 ∧ !isMinus then failAt .numberOutOfRange rest
    else
      .ok ⟨withSign isNegative 0, rest.dropWhile Char.isDigit, by
        have := length_exponentDigits_le (Text.digitValue first) text
        rw [h] at this
        exact Nat.le_trans (dropDigits_suffix rest).length_le this⟩

/-- Reads on after the mark of an exponent. -/
def readExponent (isNegative : Bool) (significand : Nat) (exponent : Int) (text : List Char) :
    Result (Step text UInt64) :=
  let isMinus := text.head? = some '-'
  match text with
  | [] => failAt .eofInValue []
  | c :: r =>
    if c = '+' ∨ c = '-' then
      match r with
      | [] => failAt .eofInValue []
      | d :: r =>
        if d.isDigit then do
          let shift ← readShift isNegative significand exponent isMinus d r
          return (shift.behind d).behind c
        else failIn .invalidNumber (d :: r)
    else if c.isDigit then do
      let shift ← readShift isNegative significand exponent false c r
      return shift.behind c
    else failIn .invalidNumber (c :: r)

/-- Reads an exponent if there is one. -/
def readTail (isNegative : Bool) (significand : Nat) (exponent : Int) (text : List Char) :
    Result (Remainder text UInt64) :=
  match text with
  | [] => return Remainder.here [] (← finish isNegative significand exponent [])
  | c :: r =>
    if c = 'e' ∨ c = 'E' then
      return (← readExponent isNegative significand exponent r).toRemainder c
    else
      return Remainder.here (c :: r) (← finish isNegative significand exponent (c :: r))

/-- Reads a fraction and an exponent, where there are any. -/
def readRest (isNegative : Bool) (significand dropped : Nat) (text : List Char) :
    Result (Remainder text UInt64) :=
  match text with
  | '.' :: r =>
    if (r.takeWhile Char.isDigit).isEmpty then
      failIn (if r.isEmpty then .eofInValue else .invalidNumber) r
    else do
      let (significand, taken) := absorbFraction significand (r.takeWhile Char.isDigit)
      let tail ← readTail isNegative significand (dropped - taken) (r.dropWhile Char.isDigit)
      return tail.ofSuffix ((dropDigits_suffix r).trans (List.suffix_cons _ _))
  | text => readTail isNegative significand dropped text

/-- Reads a number without its sign. -/
def readUnsigned (isNegative : Bool) (text : List Char) : Result (Step text UInt64) :=
  match text with
  | [] => failAt .eofInValue []
  | c :: r =>
    if c = '0' then
      match r with
      | [] => return (← readRest isNegative 0 0 []).behind c
      | d :: r =>
        if d.isDigit then failIn .invalidNumber (d :: r)
        else return (← readRest isNegative 0 0 (d :: r)).behind c
    else if c.isDigit then do
      let (significand, dropped) := absorbWhole 0 (c :: r.takeWhile Char.isDigit)
      let rest ← readRest isNegative significand dropped (r.dropWhile Char.isDigit)
      return (rest.ofSuffix (dropDigits_suffix r)).behind c
    else failIn .invalidNumber (c :: r)

/-- Reads a number, given by its bits in binary64. -/
def read (text : List Char) : Result (Step text UInt64) :=
  match text with
  | '-' :: r => return (← readUnsigned true r).behind '-'
  | text => readUnsigned false text

end Extractor.Json.Number
