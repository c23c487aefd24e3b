/-!
# Faults of an XML text

Why reading a document ends before its end. Ranges and positions count bytes: those of a
reference within its text or attribute value, those of an attribute within its tag.
-/

namespace Extractor.Xml

/-- Why a numeric character reference names no character. -/
inductive ReferenceFault where
  | signed
  | noDigits
  | notADigit
  | tooLarge
  | null
  | noCharacter (code : Nat)
  deriving DecidableEq, Repr

def ReferenceFault.message : ReferenceFault → String
  | .signed => "unexpected number sign"
  | .noDigits => "cannot parse integer from empty string"
  | .notADigit => "invalid digit found in string"
  | .tooLarge => "number too large to fit in target type"
  | .null => "0x0 character is not permitted in XML"
  | .noCharacter code => "`" ++ toString code ++ "` is not a valid codepoint"

inductive Fault where
  | unknownMarkup
  | unclosedTag
  | unclosedInstruction
  | unclosedComment
  | unclosedData
  | unclosedDoctype
  | namelessDoctype
  | mismatchedEnd (expected found : String)
  | unmatchedEnd (found : String)
  | unknownEntity (first last : Nat) (name : String)
  | unfinishedEntity (first last : Nat)
  | badReference (fault : ReferenceFault)
  | noEquals (position : Nat)
  | noValue (position : Nat)
  | noQuote (position : Nat)
  | unclosedQuote (position : Nat) (quote : Char)
  | duplicate (position earlier : Nat)
  | prematureEnd
  deriving DecidableEq, Repr

namespace Fault

def notClosed (what closing : String) : String :=
  "syntax error: " ++ what ++ " not closed: `" ++ closing ++ "` not found before end of input"

def atPosition (position : Nat) (what : String) : String :=
  "position " ++ toString position ++ ": " ++ what

def range (first last : Nat) : String := toString first ++ ".." ++ toString last

def message : Fault → String
  | .unknownMarkup => "syntax error: unknown or missed symbol in markup"
  | .unclosedTag => notClosed "tag" ">"
  | .unclosedInstruction => notClosed "processing instruction or xml declaration" "?>"
  | .unclosedComment => notClosed "comment" "-->"
  | .unclosedData => notClosed "CDATA" "]]>"
  | .unclosedDoctype => notClosed "DOCTYPE" ">"
  | .namelessDoctype =>
    "ill-formed document: `<!DOCTYPE>` declaration does not contain a name of a document type"
  | .mismatchedEnd expected found =>
    "ill-formed document: expected `</" ++ expected ++ ">`, but `</" ++ found ++ ">` was found"
  | .unmatchedEnd found =>
    "ill-formed document: close tag `</" ++ found ++ ">` does not match any open tag"
  | .unknownEntity first last name =>
    "at " ++ range first last ++ ": unrecognized entity `" ++ name ++ "`"
  | .unfinishedEntity first last =>
    "Error while escaping character at range " ++ range first last ++
      ": Cannot find ';' after '&'"
  | .badReference fault => "invalid character reference: " ++ fault.message
  | .noEquals position =>
    atPosition position "attribute key must be directly followed by `=` or space"
  | .noValue position => atPosition position "`=` must be followed by an attribute value"
  | .noQuote position => atPosition position "attribute value must be enclosed in `\"` or `'`"
  | .unclosedQuote position quote =>
    atPosition position ("missing closing quote `" ++ quote.toString ++ "` in attribute value")
  | .duplicate position earlier =>
    atPosition position
      ("duplicated attribute, previous declaration at position " ++ toString earlier)
  | .prematureEnd => "premature end of document"

end Fault

end Extractor.Xml
