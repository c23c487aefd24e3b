import Extractor.Json.Quoted
/-!
# Writing JSON

Documents that a program writes: truth values, texts, lists, and records whose parts keep their
order. They are written without white space, or with two spaces for each level.
-/

namespace Extractor.Json

inductive Tree where
  | bool (value : Bool)
  | text (content : String)
  | list (items : List Tree)
  | record (parts : List (String × Tree))
  deriving Repr, Inhabited

namespace Tree

mutual

/-- Without white space. -/
def compact : Tree → String
  | .bool value => toString value
  | .text content => Quoted.write content
  | .list items => "[" ++ ",".intercalate (compactItems items) ++ "]"
  | .record parts => "\x7b" ++ ",".intercalate (compactParts parts) ++ "\x7d"

def compactItems : List Tree → List String
  | [] => []
  | item :: rest => item.compact :: compactItems rest

def compactParts : List (String × Tree) → List String
  | [] => []
  | (name, value) :: rest => (Quoted.write name ++ ":" ++ value.compact) :: compactParts rest

end

/-- A line break and the white space of a level. -/
def newLine (level : Nat) : String := "\n" ++ String.ofList (List.replicate (2 * level) ' ')

/-- Parts between an opening and a closing mark, each on lines of its own. -/
def enclose (level : Nat) (opening closing : String) : List String → String
  | [] => opening ++ closing
  | first :: rest =>
    opening ++ newLine (level + 1) ++ ("," ++ newLine (level + 1)).intercalate (first :: rest) ++
      newLine level ++ closing

mutual

/-- On several lines, from the given level on. -/
def pretty (level : Nat) : Tree → String
  | .bool value => toString value
  | .text content => Quoted.write content
  | .list items => enclose level "[" "]" (prettyItems (level + 1) items)
  | .record parts => enclose level "\x7b" "\x7d" (prettyParts (level + 1) parts)

def prettyItems (level : Nat) : List Tree → List String
  | [] => []
  | item :: rest => item.pretty level :: prettyItems level rest

def prettyParts (level : Nat) : List (String × Tree) → List String
  | [] => []
  | (name, value) :: rest =>
    (Quoted.write name ++ ": " ++ value.pretty level) :: prettyParts level rest

end

end Tree

end Extractor.Json
