/-!
# Checksum letters

The Adler-32 checksum of the UTF-8 bytes of a text, and its name in six capital letters: the
digits of the checksum in base 26, least significant first. What lies beyond the sixth digit is
dropped.
-/

namespace Extractor.Checksum

/-- The largest prime below 2 ^ 16. -/
def modulus : UInt32 := 65521

/-- The two running sums: of the bytes, and of the first sum after each byte. -/
structure Sums where
  low : UInt32
  high : UInt32
  deriving DecidableEq, Repr

def Sums.empty : Sums := ⟨1, 0⟩

def Sums.add (s : Sums) (byte : UInt8) : Sums :=
  let low := (s.low + byte.toUInt32) % modulus
  ⟨low, (s.high + low) % modulus⟩

def Sums.toWord (s : Sums) : UInt32 := (s.high <<< 16) ||| s.low

def adler (bytes : List UInt8) : UInt32 := (bytes.foldl Sums.add Sums.empty).toWord

/-- A digit below 26 as a capital letter. -/
def letter (digit : UInt32) : Char := Char.ofNat ('A'.toNat + digit.toNat)

/-- The given number of base 26 digits, least significant first. -/
def digits : Nat → UInt32 → List Char
  | 0, _ => []
  | n + 1, value => letter (value % 26) :: digits n (value / 26)

/-- Six letters for any text. -/
def letters (text : String) : String :=
  String.ofList (digits 6 (adler text.toUTF8.toList))

theorem length_digits (n : Nat) (value : UInt32) : (digits n value).length = n := by
  induction n generalizing value with
  | zero => rfl
  | succ n ih => simp [digits, ih]

end Extractor.Checksum
