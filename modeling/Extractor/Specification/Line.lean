import Extractor.Fault
import Extractor.Text.Blank
import Extractor.Text.Search
/-!
# Lines of a specification

A line gives a key and the start of its value, or, when it is indented, goes on with the value
before it. Blank lines and lines that start with `#` mean nothing, and white space at the end of
a line never counts, so a key may also end in a bare colon.
-/

namespace Extractor

inductive Line where
  | entry (key value : String) (keySpan span : Span)
  | continuation (text : String) (span : Span)
  deriving DecidableEq, Repr, Inhabited

namespace Line

def span : Line → Span
  | .entry _ _ _ span => span
  | .continuation _ span => span

/-- Key and value of a line without white space at its end: the first colon followed by a space
separates them, unless the line starts with it, and else a colon at the end. -/
def separate? (text : List Char) : Option (List Char × List Char) :=
  match Text.breakAt? [':', ' '] text with
  | some (c :: key, value) => some (c :: key, value)
  | _ =>
    match [':'].isSuffixOf? text with
    | some (c :: key) => some (c :: key, [])
    | _ => none

/-- Reads one line, which starts at the given byte and has the given number. -/
def read (byte number : Nat) (raw : List Char) : Except Fault (Option Line) :=
  match Text.dropBlankEnd raw with
  | [] => .ok none
  | '#' :: _ => .ok none
  | c :: r =>
    let text := c :: r
    let span := Span.ofLineStart byte number text
    if Text.isBlank c then
      .ok (some (.continuation (String.ofList (Text.trimChars text)) span))
    else
      match separate? text with
      | some (key, value) =>
        .ok (some (.entry (String.ofList (Text.trimChars key))
          (String.ofList (Text.trimChars value)) (Span.ofLineStart byte number key) span))
      | none => .error (.missingSeparator (String.ofList text) span)

/-- Reads the lines from the given byte and line number on; stops at the first one that is
neither a key line nor indented. -/
def readFrom (byte number : Nat) : List (List Char) → Except Fault (List Line)
  | [] => .ok []
  | raw :: rest => do
    let line ← read byte number raw
    let lines ← readFrom (byte + byteSize raw + 1) (number + 1) rest
    return line.toList ++ lines

def readAll (source : String) : Except Fault (List Line) :=
  readFrom 0 0 (source.toList.splitOn '\n')

end Line

end Extractor
