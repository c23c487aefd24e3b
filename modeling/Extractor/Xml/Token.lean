import Extractor.Xml.Attribute
/-!
# XML tokens

A document is read into start tags, end tags and texts, each with the number of bytes up to its
end. An element without content gives a start and an end. Comments, instructions and document
type declarations give nothing, but they part the text around them. The first fault ends reading;
`Stream` keeps it behind the tokens before it.
-/

namespace Extractor.Xml

inductive Token where
  | start (name : String) (attributes : List (String × String))
  | stop (name : String)
  | text (content : String)
  deriving DecidableEq, Repr, Inhabited

/-- A token and the byte offset at which reading stands after it. -/
structure Located where
  token : Token
  offset : Nat
  deriving DecidableEq, Repr, Inhabited

/-- The fault that ended reading, and the offset at which it did. -/
structure Stop where
  fault : Fault
  offset : Nat
  deriving DecidableEq, Repr

/-- Sorts of markup, told apart by the characters after the opening angle bracket. -/
inductive Markup where
  | startTag
  | endTag
  | instruction
  | comment
  | data
  | doctype
  deriving DecidableEq, Repr

namespace Markup

def ofOpening? : List Char → Option Markup
  | '!' :: '-' :: _ => some .comment
  | '!' :: '[' :: _ => some .data
  | '!' :: 'D' :: _ => some .doctype
  | '!' :: 'd' :: _ => some .doctype
  | '!' :: _ => none
  | '/' :: _ => some .endTag
  | '?' :: _ => some .instruction
  | _ => some .startTag

def unclosed : Markup → Fault
  | .startTag => .unclosedTag
  | .endTag => .unclosedTag
  | .instruction => .unclosedInstruction
  | .comment => .unclosedComment
  | .data => .unclosedData
  | .doctype => .unclosedDoctype

/-- The quote that is open after one more character. -/
def quoteAfter (c : Char) : Option Char → Option Char
  | none => if c = '"' ∨ c = '\'' then some c else none
  | some quote => if c = quote then none else some quote

/-- What was read may be followed by the closing angle bracket. The characters are given from the
last one back to the first. -/
def isComplete (reversed : List Char) : Markup → Bool
  | .startTag => (reversed.foldr quoteAfter none).isNone
  | .endTag => (reversed.foldr quoteAfter none).isNone
  | .instruction => reversed.head? == some '?'
  | .comment => reversed.take 2 == ['-', '-'] && 5 ≤ reversed.length
  | .data => reversed.take 2 == [']', ']']
  | .doctype => reversed.count '<' == reversed.count '>'

/-- Splits at the first closing bracket that may end the markup; `reversed` holds what was read
before the given text. -/
def closeFrom (m : Markup) (reversed : List Char) : List Char → Option (List Char × List Char)
  | [] => none
  | c :: rest =>
    if c = '>' ∧ m.isComplete reversed then some (reversed.reverse, rest)
    else closeFrom m (c :: reversed) rest

/-- The content of markup and what follows it. -/
def close? (m : Markup) (text : List Char) : Option (List Char × List Char) := m.closeFrom [] text

theorem length_of_closeFrom {m : Markup} {reversed text content after : List Char}
    (h : m.closeFrom reversed text = some (content, after)) : after.length < text.length := by
  induction text generalizing reversed with
  | nil => simp [closeFrom] at h
  | cons c rest ih =>
    simp only [closeFrom] at h
    split at h
    · simp_all
    · exact Nat.lt_succ_of_lt (ih h)

/-- The start of an element, from the content of its tag. -/
def startToken (content : List Char) : Except Fault (String × Token) := do
  let isNameChar c := !isBlank c
  let name := String.ofList (content.takeWhile isNameChar)
  let attributes ← Attribute.readFrom (byteSize content) [] (content.dropWhile isNameChar)
  return (name, .start name attributes)

/-- The name in an end tag: white space after it does not count, unless there is nothing else. -/
def endName (content : List Char) : List Char :=
  match (content.reverse.dropWhile isBlank).reverse with
  | [] => content
  | name => name

/-- Closes the innermost of the open elements. -/
def endToken (opened : List String) (content : List Char) : Except Fault (List String × Token) :=
  let found := String.ofList (endName content)
  match opened with
  | [] => .error (.unmatchedEnd found)
  | expected :: others =>
    if found = expected then .ok (others, .stop found)
    else .error (.mismatchedEnd expected found)

/-- The tokens of markup with the given content, and the elements that are open after it. -/
def tokens (opened : List String) (content : List Char) :
    Markup → Except Fault (List Token × List String)
  | .startTag =>
    match ['/'].isSuffixOf? content with
    | some content => do
      let (name, token) ← startToken content
      return ([token, .stop name], opened)
    | none => do
      let (name, token) ← startToken content
      return ([token], name :: opened)
  | .endTag => do
    let (opened, token) ← endToken opened (content.drop 1)
    return ([token], opened)
  | .instruction =>
    if content.length ≤ 1 then .error .unclosedInstruction else .ok ([], opened)
  | .comment =>
    if ['!', '-', '-'].isPrefixOf content then .ok ([], opened) else .error .unclosedComment
  | .data =>
    match "![CDATA[".toList.isPrefixOf? content with
    | some rest => .ok ([.text (String.ofList (rest.take (rest.length - 2)))], opened)
    | none => .error .unclosedData
  | .doctype =>
    if (content.take 8).map Char.toLower = "!doctype".toList then
      if (content.drop 8).all isBlank then .error .namelessDoctype else .ok ([], opened)
    else .error .unclosedDoctype

end Markup

/-- Belongs to the text before the next markup. -/
def isTextChar (c : Char) : Bool := c != '<'

/-- Tokens from the given offset on, while the given elements are open, innermost first. -/
def tokensFrom (opened : List String) (offset : Nat) (text : List Char) :
    List Located × Option Stop :=
  match text with
  | [] => ([], if opened.isEmpty then none else some ⟨.prematureEnd, offset⟩)
  | c :: rest =>
    if c = '<' then
      match Markup.ofOpening? rest with
      | none => ([], some ⟨.unknownMarkup, offset + 1⟩)
      | some m =>
        match h : m.close? rest with
        | none => ([], some ⟨m.unclosed, offset + 1 + byteSize rest⟩)
        | some (content, after) =>
          let next := offset + byteSize content + 2
          match m.tokens opened content with
          | .error fault => ([], some ⟨fault, next⟩)
          | .ok (tokens, opened) =>
            let (others, stop) := tokensFrom opened next after
            (tokens.map (⟨·, next⟩) ++ others, stop)
    else
      let run := c :: rest.takeWhile isTextChar
      let next := offset + byteSize run
      match unescape run with
      | .error fault => ([], some ⟨fault, next⟩)
      | .ok content =>
        let (others, stop) := tokensFrom opened next (rest.dropWhile isTextChar)
        (⟨.text (String.ofList content), next⟩ :: others, stop)
termination_by text.length
decreasing_by
  · have := Markup.length_of_closeFrom h
    simp only [List.length_cons]
    omega
  · have := (List.dropWhile_suffix (l := rest) isTextChar).length_le
    simp only [List.length_cons]
    omega

/-- The tokens of a document and the fault behind them, if there is one. -/
structure Stream where
  document : List Char
  tokens : List Located
  stop : Option Stop
  deriving DecidableEq, Repr

namespace Stream

/-- Reads a document; a byte order mark at its start is skipped and not counted. -/
def read (document : String) : Stream :=
  let text := document.toList
  let (tokens, stop) := tokensFrom [] 0 (if text.head? = some '\ufeff' then text.tail else text)
  ⟨text, tokens, stop⟩

end Stream

end Extractor.Xml
