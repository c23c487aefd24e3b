/-!
# Places in a source text

Positions count bytes from the start of the text, lines and columns from zero, and columns in
characters. A span covers the text between two positions.
-/

namespace Extractor

/-- UTF-8 bytes of a list of characters. -/
def byteSize : List Char → Nat
  | [] => 0
  | c :: s => c.utf8Size + byteSize s

theorem byteSize_append (s t : List Char) : byteSize (s ++ t) = byteSize s + byteSize t := by
  induction s with
  | nil => simp [byteSize]
  | cons c s ih => simp [byteSize, ih, Nat.add_assoc]

structure Position where
  byte : Nat
  line : Nat
  column : Nat
  deriving DecidableEq, Repr, Inhabited

structure Span where
  start : Position
  stop : Position
  deriving DecidableEq, Repr, Inhabited

namespace Span

/-- Covers the given characters at the start of a line whose first byte is given. -/
def ofLineStart (byte line : Nat) (covered : List Char) : Span :=
  ⟨⟨byte, line, 0⟩, ⟨byte + byteSize covered, line, covered.length⟩⟩

/-- Lies past the last line of a text with that many lines. -/
def ofEnd (lines : Nat) : Span := ⟨⟨0, lines, 0⟩, ⟨0, lines, 0⟩⟩

end Span

end Extractor
