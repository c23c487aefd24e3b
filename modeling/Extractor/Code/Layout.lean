import Extractor.Code.Stmt
import Extractor.Text.Search
import Extractor.Text.Word
/-!
# Indentation of lines

Lines are indented by what is seen in the lines alone. A line that ends with an opening brace
indents what follows, a line that starts with a closing brace goes back, and a guard without
braces indents the next line that is neither blank nor a comment.
-/

namespace Extractor

namespace Layout

def isComment (line : List Char) : Bool := ['/', '/'].isPrefixOf line

def opensBlock (line : List Char) : Bool := ['\x7b'].isSuffixOf line

def closesBlock (line : List Char) : Bool := ['\x7d'].isPrefixOf line

/-- The line starts with the keyword, and no longer word does. -/
def startsWithWord (keyword : String) (line : List Char) : Bool :=
  match keyword.toList.isPrefixOf? line with
  | some [] => true
  | some (c :: _) => !Text.isWordChar c
  | none => false

/-- The line ends with the keyword, and no longer word does. -/
def endsWithWord (keyword : String) (line : List Char) : Bool :=
  match keyword.toList.isSuffixOf? line with
  | some before => !(before.getLast?.any Text.isWordChar)
  | none => false

/-- A guard whose statement stands on a line of its own, not in a block. -/
def isOpenGuard (line : List Char) : Bool :=
  !(line.isEmpty || isComment line || opensBlock line || [';'].isSuffixOf line) &&
    (startsWithWord "if" line || startsWithWord "while" line || startsWithWord "for" line ||
      Text.occursIn "else if".toList line || endsWithWord "else" line)

/-- What the lines before a line say about its indentation. -/
structure State where
  depth : Nat
  /-- Units of the depth that end with the next statement. -/
  owed : Nat
  /-- The line before opens a block. -/
  opened : Bool
  deriving DecidableEq, Repr, Inhabited

namespace State

def ofDepth (depth : Nat) : State := ⟨depth, 0, false⟩

/-- The depth at which a line is written. -/
def depthOf (s : State) (line : List Char) : Nat :=
  (if s.opened then s.depth + 1 else s.depth) - (if closesBlock line then 1 else 0)

def next (s : State) (line : List Char) : State :=
  let depth := s.depthOf line
  if isOpenGuard line then ⟨depth + 1, s.owed + 1, opensBlock line⟩
  else if s.owed > 0 && !line.isEmpty && !isComment line then
    ⟨depth - s.owed, 0, opensBlock line⟩
  else ⟨depth, s.owed, opensBlock line⟩

end State

/-- A trimmed line at a depth; a blank line is left empty. -/
def indentLine (unit depth : Nat) (line : List Char) : List Char :=
  if line.isEmpty then [] else List.replicate (depth * unit) ' ' ++ line

/-- Indents trimmed lines. -/
def indentFrom (unit : Nat) (s : State) : List (List Char) → List (List Char)
  | [] => []
  | line :: rest =>
    indentLine unit (s.depthOf line) line :: indentFrom unit (s.next line) rest

/-- The lines of a text, each trimmed, indented and ended by a line break. -/
def indent (unit depth : Nat) (lines : List String) : String :=
  String.ofList ((indentFrom unit (State.ofDepth depth)
    (lines.map fun line => Text.trimChars line.toList)).flatMap (· ++ ['\n']))

end Layout

/-- Lines of code that are gathered before they are indented. -/
structure Page where
  lines : List String
  deriving DecidableEq, Repr, Inhabited

namespace Page

def empty : Page := ⟨[]⟩

def add (page : Page) (stmts : List Stmt) : Page := ⟨page.lines ++ Stmt.linesOf stmts⟩

def size (page : Page) : Nat := page.lines.length

/-- The text with four spaces for each level. -/
def text (page : Page) (depth : Nat) : String := Layout.indent 4 depth page.lines

end Page

end Extractor
