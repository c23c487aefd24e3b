import Extractor.Position
import Extractor.Xml.Fault
/-!
# References in XML text

`unescape` replaces the five predefined entities and numeric character references of a text or an
attribute value. A reference ends at the first semicolon; another ampersand before it is a fault.
-/

namespace Extractor.Xml

namespace Reference

def entity? (name : List Char) : Option Char :=
  if name = ['l', 't'] then some '<'
  else if name = ['g', 't'] then some '>'
  else if name = ['a', 'm', 'p'] then some '&'
  else if name = ['a', 'p', 'o', 's'] then some '\''
  else if name = ['q', 'u', 'o', 't'] then some '"'
  else none

def digit? (radix : Nat) (c : Char) : Option Nat :=
  let value :=
    if c.isDigit then some (c.toNat - '0'.toNat)
    else if 'a' ≤ c ∧ c ≤ 'z' then some (c.toNat - 'a'.toNat + 10)
    else if 'A' ≤ c ∧ c ≤ 'Z' then some (c.toNat - 'A'.toNat + 10)
    else none
  value.filter (· < radix)

/-- Goes on with a number of 32 bits, digit by digit. -/
def number (radix value : Nat) : List Char → Except ReferenceFault Nat
  | [] => .ok value
  | c :: rest =>
    match digit? radix c with
    | none => .error .notADigit
    | some d =>
      if value * radix + d < UInt32.size then number radix (value * radix + d) rest
      else .error .tooLarge

def unsigned (radix : Nat) : List Char → Except ReferenceFault Nat
  | [] => .error .noDigits
  | c :: rest =>
    if c = '+' ∨ c = '-' then .error .signed else number radix 0 (c :: rest)

/-- The character with the number that follows the number sign. -/
def character (digits : List Char) : Except ReferenceFault Char := do
  let code ←
    match digits with
    | 'x' :: hexadecimal => unsigned 16 hexadecimal
    | decimal => unsigned 10 decimal
  if code = 0 then throw .null
  else if code.isValidChar then return Char.ofNat code
  else throw (.noCharacter code)

/-- The character of a reference, whose name starts at the given byte. -/
def resolve (first : Nat) (name : List Char) : Except Fault Char :=
  match name with
  | '#' :: digits =>
    match character digits with
    | .ok c => .ok c
    | .error fault => .error (.badReference fault)
  | name =>
    match entity? name with
    | some c => .ok c
    | none => .error (.unknownEntity first (first + byteSize name) (String.ofList name))

def isNameChar (c : Char) : Bool := c != '&' && c != ';'

end Reference

/-- Unescapes a text from the given byte on; `size` is the number of bytes in the whole text. -/
def unescapeFrom (size position : Nat) (text : List Char) : Except Fault (List Char) :=
  match text with
  | [] => .ok []
  | c :: r =>
    if c = '&' then
      match h : r.dropWhile Reference.isNameChar with
      | ';' :: rest => do
        let name := r.takeWhile Reference.isNameChar
        let char ← Reference.resolve (position + 1) name
        let chars ← unescapeFrom size (position + byteSize name + 2) rest
        return char :: chars
      | _ => .error (.unfinishedEntity position size)
    else do
      let chars ← unescapeFrom size (position + c.utf8Size) r
      return c :: chars
termination_by text.length
decreasing_by
  · have := (List.dropWhile_suffix (l := r) Reference.isNameChar).length_le
    simp only [h, List.length_cons] at this ⊢
    omega
  · exact Nat.lt_succ_self _

def unescape (text : List Char) : Except Fault (List Char) := unescapeFrom (byteSize text) 0 text

end Extractor.Xml
