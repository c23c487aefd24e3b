import Extractor.Xml.Reference
/-!
# Attributes of a tag

Reads the attributes of a start tag from left to right. The first character of a name always
belongs to it, even an equals sign; the next attribute may follow a closing quote at once.
-/

namespace Extractor.Xml

/-- White space in markup. -/
def isBlank (c : Char) : Bool := c == ' ' || c == '\t' || c == '\n' || c == '\r'

namespace Attribute

def isNameChar (c : Char) : Bool := c != '=' && !isBlank c

theorem length_dropWhile_le (p : Char → Bool) (s : List Char) :
    (s.dropWhile p).length ≤ s.length :=
  (List.dropWhile_suffix p).length_le

/-- Reads attributes up to the end of a tag with `size` bytes. `text` is what is left of the tag,
so that its place follows from its length in bytes; `seen` holds the names before, with their
places. -/
def readFrom (size : Nat) (seen : List (List Char × Nat)) (text : List Char) :
    Except Fault (List (String × String)) :=
  match _h : text.dropWhile isBlank with
  | [] => .ok []
  | c :: r =>
    let position := size - byteSize (c :: r)
    let name := c :: r.takeWhile isNameChar
    match _h1 : (r.dropWhile isNameChar).dropWhile isBlank with
    | '=' :: r1 =>
      match seen.lookup name with
      | some earlier => .error (.duplicate position earlier)
      | none =>
        match _h2 : r1.dropWhile isBlank with
        | [] => .error (.noValue size)
        | quote :: r2 =>
          if quote = '"' ∨ quote = '\'' then
            match _h3 : r2.dropWhile (· != quote) with
            | [] => .error (.unclosedQuote size quote)
            | _ :: rest => do
              let value ← unescape (r2.takeWhile (· != quote))
              let others ← readFrom size ((name, position) :: seen) rest
              return (String.ofList name, String.ofList value) :: others
          else .error (.noQuote (size - byteSize (quote :: r2)))
    | rest => .error (.noEquals (size - byteSize rest))
termination_by text.length
decreasing_by
  have e0 := length_dropWhile_le isBlank text
  have e1 := length_dropWhile_le isNameChar r
  have e2 := length_dropWhile_le isBlank (r.dropWhile isNameChar)
  have e3 := length_dropWhile_le isBlank r1
  have e4 := length_dropWhile_le (· != quote) r2
  simp only [_h, _h1, _h2, _h3, List.length_cons] at e0 e2 e3 e4
  omega

end Attribute

end Extractor.Xml
