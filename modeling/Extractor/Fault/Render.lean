import Extractor.Fault
import Extractor.Text.Lines
/-!
# Faults with their source line

`Fault.render` prints a fault with the line it stands in and a row of carets under the offending
text. A fault found past the last line has no such excerpt. `Failure` adds the files that cannot
be read at all.
-/

namespace Extractor

/-- Control sequences around the coloured parts of a message. -/
structure Palette where
  red : String
  dim : String
  cyan : String
  reset : String
  deriving DecidableEq, Repr

namespace Palette

def plain : Palette := ⟨"", "", "", ""⟩

def color : Palette := ⟨"\x1b[1;31m", "\x1b[2m", "\x1b[1;38;5;73m", "\x1b[0m"⟩

end Palette

def spaces (n : Nat) : String := String.ofList (List.replicate n ' ')

/-- Pads on the left up to a width. -/
def alignRight (width : Nat) (text : String) : String := spaces (width - text.length) ++ text

namespace Fault

/-- Carets under the excerpt: as many as the span covers on its first line, at least one. -/
def caretCount (span : Span) (line : String) : Nat :=
  max 1 ((if span.stop.line = span.start.line then span.stop.column else line.length) -
    span.start.column)

def excerpt (p : Palette) (span : Span) (line : String) : String :=
  let number := toString (span.start.line + 1)
  let width := max 2 number.length
  p.dim ++ alignRight width "" ++ " |" ++ p.reset ++ "\n" ++
    p.dim ++ alignRight width number ++ " |" ++ p.reset ++ " " ++ line ++ "\n" ++
    p.dim ++ alignRight width "" ++ " |" ++ p.reset ++ " " ++ spaces span.start.column ++
      p.red ++ String.ofList (List.replicate (caretCount span line) '^') ++ p.reset ++ "\n"

/-- The help text, its further lines aligned under the first. -/
def helpLines (p : Palette) (help : String) : String :=
  match Text.physicalLines help with
  | [] => ""
  | first :: rest =>
    " " ++ p.cyan ++ "help:" ++ p.reset ++ " " ++ first ++ "\n" ++
      String.join (rest.map fun line => "       " ++ line ++ "\n")

def render (p : Palette) (source filename : String) (f : Fault) : String :=
  let start := f.span.start
  "\n " ++ p.dim ++ "file:" ++ p.reset ++ " " ++ filename ++ ":" ++ toString (start.line + 1) ++
      ":" ++ toString (start.column + 1) ++ "\n" ++
    p.red ++ "error:" ++ p.reset ++ " " ++ f.message ++ "\n" ++
    (match (Text.physicalLines source)[start.line]? with
      | some line => excerpt p f.span line
      | none => "") ++
    (match f.help with
      | some help => "\n" ++ helpLines p help
      | none => "") ++
    "\n"

end Fault

/-- Why no code comes out of a specification. -/
inductive Failure where
  | malformed (fault : Fault)
  | unreadable (path cause : String)
  deriving DecidableEq, Repr, Inhabited

namespace Failure

def message : Failure → String
  | .malformed fault => "malformed specification: " ++ fault.summary
  | .unreadable path cause => "cannot read " ++ path ++ ": " ++ cause

def render (p : Palette) (source filename : String) : Failure → String
  | .malformed fault => fault.render p source filename
  | .unreadable path cause => "error: " ++ (Failure.unreadable path cause).message ++ "\n"

end Failure

end Extractor
