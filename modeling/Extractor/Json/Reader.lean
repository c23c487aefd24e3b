import Extractor.Json.Number
import Extractor.Json.Quoted
import Extractor.Json.Value
/-!
# Reading JSON

`Value.read` accepts one value with white space around it. Values may be nested to a depth of
127; the fault that comes first in the text is the one reported.
-/

namespace Extractor.Json

namespace Value

/-- Reads the letters of a word. -/
def readWord (letters text : List Char) : Result (Remainder text Unit) :=
  match letters, text with
  | [], text => return .here text ()
  | _ :: _, [] => failAt .eofInValue []
  | l :: letters, c :: r =>
    if c = l then return ((← readWord letters r).ofSuffix (List.suffix_cons c r))
    else failIn .expectedIdent (c :: r)

/-- How many arrays and objects may be open at a time. -/
def maxDepth : Nat := 127

mutual

/-- Reads a value; `allowance` is the number of arrays and objects that it may nest. -/
def readValue (allowance : Nat) (text : List Char) : Result (Step text Value) :=
  match h : skipBlank text with
  | [] => failIn .eofInValue []
  | c :: r =>
    have hr : r.length < text.length := length_lt_of_skipBlank h
    if c = 'n' then
      return ((← readWord ['u', 'l', 'l'] r).map fun _ => .null).widen hr
    else if c = 't' then
      return ((← readWord ['r', 'u', 'e'] r).map fun _ => .bool true).widen hr
    else if c = 'f' then
      return ((← readWord ['a', 'l', 's', 'e'] r).map fun _ => .bool false).widen hr
    else if c = '"' then return ((← Quoted.read r).map .string).widen hr
    else if c = '-' ∨ c.isDigit then
      return ((← Number.read (c :: r)).map .number).ofSkipBlank h
    else if c = '[' then
      match allowance with
      | 0 => failIn .tooDeep (c :: r)
      | allowance + 1 => return ((← readArray allowance r).map .array).widen hr
    else if c = '\x7b' then
      match allowance with
      | 0 => failIn .tooDeep (c :: r)
      | allowance + 1 => return ((← readObject allowance r).map .object).widen hr
    else failIn .expectedValue (c :: r)
termination_by 3 * text.length
decreasing_by all_goals omega

/-- Reads on after the bracket that opens an array. -/
def readArray (allowance : Nat) (text : List Char) : Result (Step text (List Value)) :=
  match h : skipBlank text with
  | [] => failIn .eofInArray []
  | ']' :: r =>
    have hr : r.length < text.length := length_lt_of_skipBlank h
    return ⟨[], r, hr⟩
  | _ :: _ => readItems allowance text
termination_by 3 * text.length + 2
decreasing_by omega

/-- Reads one item and those after it, up to the closing bracket. -/
def readItems (allowance : Nat) (text : List Char) : Result (Step text (List Value)) := do
  let item ← readValue allowance text
  have _hitem := item.shorter
  match h : skipBlank item.rest with
  | [] => failIn .eofInArray []
  | c :: r =>
    have hr : r.length < item.rest.length := length_lt_of_skipBlank h
    if c = ']' then return item.andThen ⟨[item.value], r, hr⟩
    else if c = ',' then
      match skipBlank r with
      | [] => failIn .eofInValue []
      | ']' :: r' => failIn .trailingComma (']' :: r')
      | _ :: _ => do
        let items ← readItems allowance r
        return item.andThen ((items.map (item.value :: ·)).widen hr)
    else failIn .expectedCommaOrBracket (c :: r)
termination_by 3 * text.length + 1
decreasing_by all_goals omega

/-- Reads on after the brace that opens an object. -/
def readObject (allowance : Nat) (text : List Char) :
    Result (Step text (List (String × Value))) :=
  match h : skipBlank text with
  | [] => failIn .eofInObject []
  | c :: r =>
    have hr : r.length < text.length := length_lt_of_skipBlank h
    if c = '\x7d' then return ⟨[], r, hr⟩
    else if c = '"' then return (← readMembers allowance [] r).widen hr
    else failIn .keyNotString (c :: r)
termination_by 3 * text.length + 2
decreasing_by omega

/-- Reads a member after the quote that opens its name, and the members after it, up to the
closing brace. -/
def readMembers (allowance : Nat) (members : List (String × Value)) (text : List Char) :
    Result (Step text (List (String × Value))) := do
  let name ← Quoted.read text
  have _hname := name.shorter
  match h : skipBlank name.rest with
  | [] => failIn .eofInObject []
  | ':' :: r =>
    have hr : r.length < name.rest.length := length_lt_of_skipBlank h
    let value ← readValue allowance r
    have _hvalue := value.shorter
    let members := insertMember name.value value.value members
    match h' : skipBlank value.rest with
    | [] => failIn .eofInObject []
    | c :: r' =>
      have hr' : r'.length < value.rest.length := length_lt_of_skipBlank h'
      if c = '\x7d' then
        return name.andThen ((value.andThen ⟨members, r', hr'⟩).widen hr)
      else if c = ',' then
        match h'' : skipBlank r' with
        | [] => failIn .eofInValue []
        | d :: r'' =>
          have hr'' : r''.length < r'.length := length_lt_of_skipBlank h''
          if d = '\x7d' then failIn .trailingComma (d :: r'')
          else if d = '"' then do
            let rest ← readMembers allowance members r''
            return name.andThen ((value.andThen ((rest.widen hr'').widen hr')).widen hr)
          else failIn .keyNotString (d :: r'')
      else failIn .expectedCommaOrBrace (c :: r')
  | c :: r => failIn .expectedColon (c :: r)
termination_by 3 * text.length + 1
decreasing_by all_goals omega

end

/-- Reads a whole document. -/
def readChars (document : List Char) : Except Fault.At Value := do
  let step ← readValue maxDepth document
  match skipBlank step.rest with
  | [] => return step.value
  | c :: r => failIn .trailingCharacters (c :: r)

/-- The value of a document, or the message of the fault in it. -/
def read (document : String) : Except String Value :=
  match readChars document.toList with
  | .ok value => .ok value
  | .error fault => .error (fault.render document.toList)

end Value

end Extractor.Json
