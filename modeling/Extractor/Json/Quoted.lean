import Extractor.Json.Step
/-!
# JSON strings

Reading strings with their escapes, and writing them with as few escapes as the format allows.
-/

namespace Extractor.Json.Quoted

/-- Characters for which an escape has a letter of its own. -/
def ofLetter? : Char → Option Char
  | '"' => some '"'
  | '\\' => some '\\'
  | '/' => some '/'
  | 'b' => some '\x08'
  | 'f' => some '\x0c'
  | 'n' => some '\n'
  | 'r' => some '\r'
  | 't' => some '\t'
  | _ => none

def hexDigit? (c : Char) : Option Nat :=
  if c.isDigit then some (c.toNat - '0'.toNat)
  else if 'a' ≤ c ∧ c ≤ 'f' then some (c.toNat - 'a'.toNat + 10)
  else if 'A' ≤ c ∧ c ≤ 'F' then some (c.toNat - 'A'.toNat + 10)
  else none

/-- Four hexadecimal digits as a number. -/
def hexNumber? (a b c d : Char) : Option Nat := do
  return (((← hexDigit? a) * 16 + (← hexDigit? b)) * 16 + (← hexDigit? c)) * 16 + (← hexDigit? d)

/-- Reads four hexadecimal digits; a fault lies after the four bytes, or at the end. -/
def readHex (text : List Char) : Result (Step text Nat) :=
  if byteSize text < 4 then failAt .eofInString []
  else
    match text with
    | a :: b :: c :: d :: rest =>
      match hexNumber? a b c d with
      | some n => return (((Step.overHead n d rest).behind c).behind b).behind a
      | none => .error ⟨.invalidEscape, a :: b :: c :: d :: rest, 4⟩
    | text => .error ⟨.invalidEscape, text, 4⟩

def isHighSurrogate (n : Nat) : Bool := 0xD800 ≤ n && n ≤ 0xDBFF

def isLowSurrogate (n : Nat) : Bool := 0xDC00 ≤ n && n ≤ 0xDFFF

/-- The character of a pair of surrogates. -/
def ofSurrogates (high low : Nat) : Char :=
  Char.ofNat (0x10000 + (high - 0xD800) * 0x400 + (low - 0xDC00))

/-- Reads the low surrogate that has to follow a high one. -/
def readLowSurrogate (high : Nat) (text : List Char) : Result (Step text Char) :=
  match text with
  | [] => failAt .eofInString []
  | '\\' :: [] => failAt .eofInString []
  | '\\' :: 'u' :: r => do
    let low ← readHex r
    if isLowSurrogate low.value then
      return ((low.map (ofSurrogates high)).behind 'u').behind '\\'
    else failAt .loneSurrogate low.rest
  | '\\' :: c :: r => failIn .unfinishedSurrogate (c :: r)
  | c :: r => failIn .unfinishedSurrogate (c :: r)

/-- Reads on after the letter of a hexadecimal escape. -/
def readUnicode (text : List Char) : Result (Step text Char) := do
  let number ← readHex text
  if isLowSurrogate number.value then failAt .loneSurrogate number.rest
  else if isHighSurrogate number.value then
    return number.andThen (← readLowSurrogate number.value number.rest)
  else return number.map Char.ofNat

/-- Reads on after a backslash. -/
def readEscape (text : List Char) : Result (Step text Char) :=
  match text with
  | [] => failAt .eofInString []
  | c :: r =>
    if c = 'u' then return (← readUnicode r).behind c
    else
      match ofLetter? c with
      | some d => return .overHead d c r
      | none => failIn .invalidEscape (c :: r)

/-- Reads on inside a string, up to its closing quote. -/
def readChars (text : List Char) : Result (Step text (List Char)) :=
  match text with
  | [] => failAt .eofInString []
  | c :: r =>
    if c = '"' then return .overHead [] c r
    else if c = '\\' then do
      let char ← readEscape r
      let chars ← readChars char.rest
      return (char.andThen (chars.map (char.value :: ·))).behind c
    else if c.toNat < 0x20 then failIn .controlCharacter (c :: r)
    else return ((← readChars r).map (c :: ·)).behind c
termination_by text.length
decreasing_by
  · exact Nat.lt_succ_of_lt char.shorter
  · exact Nat.lt_succ_self _

/-- Reads on after the opening quote. -/
def read (text : List Char) : Result (Step text String) :=
  return (← readChars text).map String.ofList

/-- A digit below 16 as a lower-case hexadecimal digit. -/
def hexChar (n : Nat) : Char := if n < 10 then Char.ofNat (48 + n) else Char.ofNat (87 + n)

/-- How a character is written between quotes. -/
def escapeChar (c : Char) : List Char :=
  if c = '"' then ['\\', '"']
  else if c = '\\' then ['\\', '\\']
  else if c = '\x08' then ['\\', 'b']
  else if c = '\x0c' then ['\\', 'f']
  else if c = '\n' then ['\\', 'n']
  else if c = '\r' then ['\\', 'r']
  else if c = '\t' then ['\\', 't']
  else if c.toNat < 0x20 then
    ['\\', 'u', '0', '0', hexChar (c.toNat / 16), hexChar (c.toNat % 16)]
  else [c]

/-- A text between quotes. -/
def write (text : String) : String :=
  "\"" ++ String.ofList (text.toList.flatMap escapeChar) ++ "\""

/-- An array of texts. -/
def writeArray (texts : List String) : String :=
  "[" ++ ",".intercalate (texts.map write) ++ "]"

end Extractor.Json.Quoted
