import Extractor.Key
import Extractor.Text.Search
/-!
# Templates

A template is text with placeholders between double braces: the text of a field of the entry, all
values at a path as a list, or all values at a path joined by line breaks. `scan` cuts a template
into literal text and placeholders from left to right, and `fill` puts a text in the place of
each placeholder. What a placeholder is replaced by is not scanned again.
-/

namespace Extractor

inductive Placeholder where
  | field (key : Key)
  | list (path : String)
  | join (path : String)
  deriving DecidableEq, Repr, Inhabited

inductive Segment where
  | text (text : String)
  | placeholder (placeholder : Placeholder)
  deriving DecidableEq, Repr, Inhabited

namespace Placeholder

/-- Reads what stands between the braces. -/
def parse (inner : List Char) : Placeholder :=
  match ("field[".toList.isPrefixOf? inner).bind ([']'].isSuffixOf? ·) with
  | some key => .field (Key.parse (String.ofList key))
  | none =>
    match "QStringList:".toList.isPrefixOf? inner with
    | some path => .list (String.ofList path)
    | none => .join (String.ofList inner)

end Placeholder

namespace Template

def opening : List Char := ['\x7b', '\x7b']

def closing : List Char := ['\x7d', '\x7d']

/-- Literal text as a segment, unless there is none. -/
def literal (text : List Char) : List Segment :=
  if text.isEmpty then [] else [.text (String.ofList text)]

def scanChars (text : List Char) : List Segment :=
  match _hopen : Text.breakAt? opening text with
  | none => literal text
  | some (before, rest) =>
    match _hclose : Text.breakAt? closing rest with
    | none => literal text
    | some (inner, after) =>
      literal before ++ .placeholder (Placeholder.parse inner) :: scanChars after
termination_by text.length
decreasing_by
  have h1 := Text.length_of_breakAt? _hopen
  have h2 := Text.length_of_breakAt? _hclose
  simp only [opening, closing, List.length_cons, List.length_nil] at h1 h2
  omega

def scan (text : String) : List Segment := scanChars text.toList

/-- What to put in the place of each placeholder. -/
structure Resolver where
  field : Key → String
  list : String → String
  join : String → String

def Resolver.resolve (r : Resolver) : Placeholder → String
  | .field key => r.field key
  | .list path => r.list path
  | .join path => r.join path

def Resolver.render (r : Resolver) : Segment → String
  | .text text => text
  | .placeholder p => r.resolve p

def fill (r : Resolver) (text : String) : String := String.join ((scan text).map r.render)

end Template

end Extractor
