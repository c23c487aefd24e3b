import Extractor.Position
/-!
# Faults of a JSON text

Why a text is not JSON, and where. The place is given in lines, from one, and in bytes from the
start of the line. A fault that is seen in the byte to come is placed after that byte.
-/

namespace Extractor.Json

inductive Fault where
  | eofInValue
  | eofInString
  | eofInArray
  | eofInObject
  | expectedValue
  | expectedIdent
  | expectedCommaOrBracket
  | expectedCommaOrBrace
  | expectedColon
  | trailingComma
  | keyNotString
  | trailingCharacters
  | invalidNumber
  | numberOutOfRange
  | controlCharacter
  | invalidEscape
  | loneSurrogate
  | unfinishedSurrogate
  | tooDeep
  deriving DecidableEq, Repr

def Fault.message : Fault → String
  | .eofInValue => "EOF while parsing a value"
  | .eofInString => "EOF while parsing a string"
  | .eofInArray => "EOF while parsing a list"
  | .eofInObject => "EOF while parsing an object"
  | .expectedValue => "expected value"
  | .expectedIdent => "expected ident"
  | .expectedCommaOrBracket => "expected `,` or `]`"
  | .expectedCommaOrBrace => "expected `,` or `\x7d`"
  | .expectedColon => "expected `:`"
  | .trailingComma => "trailing comma"
  | .keyNotString => "key must be a string"
  | .trailingCharacters => "trailing characters"
  | .invalidNumber => "invalid number"
  | .numberOutOfRange => "number out of range"
  | .controlCharacter => "control character (\\u0000-\\u001F) found while parsing a string"
  | .invalidEscape => "invalid escape"
  | .loneSurrogate => "lone leading surrogate in hex escape"
  | .unfinishedSurrogate => "unexpected end of hex escape"
  | .tooDeep => "recursion limit exceeded"

/-- A fault with the text that was not read when it was found, and the number of bytes beyond
the start of that text at which it lies. -/
structure Fault.At where
  fault : Fault
  rest : List Char
  beyond : Nat
  deriving DecidableEq, Repr

/-- Line and byte column after the given number of bytes, from the given ones on. -/
def place (line column : Nat) : Nat → List Char → Nat × Nat
  | _, [] => (line, column)
  | bytes, c :: rest =>
    if bytes < c.utf8Size then (line, column + bytes)
    else if c = '\n' then place (line + 1) 0 (bytes - 1) rest
    else place line (column + c.utf8Size) (bytes - c.utf8Size) rest

/-- The message for a fault of this document. -/
def Fault.At.render (document : List Char) (f : Fault.At) : String :=
  let (line, column) := place 1 0 (byteSize document - byteSize f.rest + f.beyond) document
  f.fault.message ++ " at line " ++ toString line ++ " column " ++ toString column

end Extractor.Json
