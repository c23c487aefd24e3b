import Extractor.Checksum
import Extractor.Text.Blank
import Extractor.Text.Literal
/-!
# Keys and value classes

A key names a field of a bibliographic entry: by a symbol that the emitted code knows, or by a
literal text, which is written between quotes. A value class is the type that the emitted code
wraps the text of a field in; where a specification does not give one, the key decides.
-/

namespace Extractor

inductive Key where
  | symbol (name : String)
  | literal (text : String)
  deriving DecidableEq, Repr, Inhabited

namespace Key

/-- The text between two quotes, when there is some. -/
def unquote? : List Char → Option (List Char)
  | '"' :: r =>
    match ['"'].isSuffixOf? r with
    | some (c :: inner) => some (c :: inner)
    | _ => none
  | _ => none

/-- Reads the written form; white space around it does not count. -/
def parse (written : String) : Key :=
  match unquote? (Text.trimChars written.toList) with
  | some inner => .literal (String.ofList inner)
  | none => .symbol (Text.trim written)

/-- The form in which a specification writes the key. -/
def written : Key → String
  | .symbol name => name
  | .literal text => "\"" ++ text ++ "\""

/-- The expression for the key in emitted code. -/
def expression : Key → String
  | .symbol name => name
  | .literal text => Text.literalOf text

/-- The local variable that holds what a rule for this key computes. -/
def variableName (k : Key) : String := "value" ++ Checksum.letters k.written

end Key

inductive ValueClass where
  | plainText
  | verbatimText
  | macroKey
  | other (name : String)
  deriving DecidableEq, Repr, Inhabited

namespace ValueClass

def parse (text : String) : ValueClass :=
  let name := Text.trim text
  if name = "PlainText" then .plainText
  else if name = "VerbatimText" then .verbatimText
  else if name = "MacroKey" then .macroKey
  else .other name

def name : ValueClass → String
  | .plainText => "PlainText"
  | .verbatimText => "VerbatimText"
  | .macroKey => "MacroKey"
  | .other name => name

/-- The class of a field whose specification gives none. -/
def guess : Key → ValueClass
  | .symbol name =>
    if name = "Entry::ftDOI" ∨ name = "Entry::ftUrl" then .verbatimText
    else if name = "Entry::ftMonth" then .macroKey
    else .plainText
  | .literal _ => .plainText

end ValueClass

end Extractor
