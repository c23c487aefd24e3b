import Extractor.Json.Fault
/-!
# Reading steps

A reader of JSON text gives what it read together with the text that is left, which is shorter
than the text it was given; readers of nested values end for this reason. A reader of something
that may be empty gives a `Remainder`, which need not be shorter.
-/

namespace Extractor.Json

structure Step (text : List Char) (α : Type) where
  value : α
  rest : List Char
  shorter : rest.length < text.length

structure Remainder (text : List Char) (α : Type) where
  value : α
  rest : List Char
  notLonger : rest.length ≤ text.length

abbrev Result := Except Fault.At

variable {text longer : List Char} {α β : Type}

namespace Step

/-- The same step from a longer text. -/
def widen (s : Step text α) (h : text.length < longer.length) : Step longer α :=
  ⟨s.value, s.rest, Nat.lt_trans s.shorter h⟩

/-- The same step from a text with one more character. -/
def behind (s : Step text α) (c : Char) : Step (c :: text) α :=
  ⟨s.value, s.rest, Nat.lt_succ_of_lt s.shorter⟩

/-- A step over the first character. -/
def overHead (value : α) (c : Char) (rest : List Char) : Step (c :: rest) α :=
  ⟨value, rest, Nat.lt_succ_self _⟩

/-- A step and another one behind it. -/
def andThen (s : Step text α) (next : Step s.rest β) : Step text β :=
  ⟨next.value, next.rest, Nat.lt_trans next.shorter s.shorter⟩

def map (f : α → β) (s : Step text α) : Step text β := ⟨f s.value, s.rest, s.shorter⟩

def toRemainder (s : Step text α) (c : Char) : Remainder (c :: text) α :=
  ⟨s.value, s.rest, Nat.le_succ_of_le (Nat.le_of_lt s.shorter)⟩

end Step

namespace Remainder

/-- Nothing was read. -/
def here (text : List Char) (value : α) : Remainder text α := ⟨value, text, Nat.le_refl _⟩

/-- The same remainder from a text with one more character. -/
def behind (r : Remainder text α) (c : Char) : Step (c :: text) α :=
  ⟨r.value, r.rest, Nat.lt_succ_of_le r.notLonger⟩

/-- The same remainder from a longer text. -/
def widen (r : Remainder text α) (h : text.length < longer.length) : Step longer α :=
  ⟨r.value, r.rest, Nat.lt_of_le_of_lt r.notLonger h⟩

def map (f : α → β) (r : Remainder text α) : Remainder text β :=
  ⟨f r.value, r.rest, r.notLonger⟩

/-- The same remainder from a text that the given text ends. -/
def ofSuffix (r : Remainder text α) (h : text <:+ longer) : Remainder longer α :=
  ⟨r.value, r.rest, Nat.le_trans r.notLonger h.length_le⟩

end Remainder

/-- A fault at the start of the text that is left. -/
def failAt (fault : Fault) (rest : List Char) : Result α :=
  .error ⟨fault, rest, 0⟩

/-- A fault in the first byte of the text that is left, or at the end if nothing is left. -/
def failIn (fault : Fault) (rest : List Char) : Result α :=
  .error ⟨fault, rest, if rest.isEmpty then 0 else 1⟩

/-- White space between the parts of a value. -/
def isBlank (c : Char) : Bool := c == ' ' || c == '\t' || c == '\n' || c == '\r'

def skipBlank (text : List Char) : List Char := text.dropWhile isBlank

theorem length_skipBlank_le (text : List Char) : (skipBlank text).length ≤ text.length :=
  (List.dropWhile_suffix _).length_le

theorem length_lt_of_skipBlank {text r : List Char} {c : Char} (h : skipBlank text = c :: r) :
    r.length < text.length := by
  have := length_skipBlank_le text
  simp only [h, List.length_cons] at this
  omega

/-- The same step from the text with the white space before it. -/
def Step.ofSkipBlank {c : Char} {r : List Char} (s : Step (c :: r) α)
    (h : skipBlank text = c :: r) : Step text α :=
  ⟨s.value, s.rest, Nat.lt_of_lt_of_le s.shorter (h ▸ length_skipBlank_le text)⟩

end Extractor.Json
