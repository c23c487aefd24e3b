/-!
# Numerals

Decimal numerals of machine words, as they are written in paths and on the command line.
-/

namespace Extractor.Text

def digitValue (c : Char) : Nat := c.toNat - '0'.toNat

/-- A number of 64 bits: decimal digits, perhaps after a plus sign. -/
def word? (text : String) : Option Nat :=
  let digits := (['+'].isPrefixOf? text.toList).getD text.toList
  if digits.isEmpty || !digits.all Char.isDigit then none
  else (some (digits.foldl (fun n c => n * 10 + digitValue c) 0)).filter (· < UInt64.size)

end Extractor.Text
