import Extractor.Xml.Record
import Mathlib.Data.List.Infix
/-!
# Element trees

The content of an element as a tree, the tokens that it is written with, and what it stores: the
entries of a record, by recursion on the tree and in document order. A text is stored under a type
as well when the start tag before it tells one, even if the element of that tag is closed already.
-/

namespace Extractor.Xml

abbrev Attributes := List (String × String)

namespace Attributes

/-- The attributes whose value is not blank, with trimmed values. -/
def present (attributes : Attributes) : Attributes :=
  (attributes.map fun (name, value) => (name, Text.trim value)).filter fun (_, value) => value ≠ ""

/-- The last attribute with `type` in its name, in small letters or capital ones. -/
def type? (attributes : Attributes) : Option (String × String) :=
  (attributes.present.filter fun (name, _) =>
    "type".toList <:+: name.toList.map Char.toLower).getLast?

end Attributes

/-- What stands in an element: other elements, and pieces of text. -/
inductive Node where
  | element (name : String) (attributes : Attributes) (content : List Node)
  | text (content : String)
  deriving Repr, Inhabited

namespace Node

mutual

def tokens : Node → List Token
  | .element name attributes content =>
    .start name attributes :: tokensOf content ++ [.stop name]
  | .text content => [.text content]

def tokensOf : List Node → List Token
  | [] => []
  | node :: rest => node.tokens ++ tokensOf rest

end

mutual

/-- The attributes of each start tag, in document order. -/
def tags : Node → List Attributes
  | .element _ attributes content => attributes :: tagsOf content
  | .text _ => []

def tagsOf : List Node → List Attributes
  | [] => []
  | node :: rest => node.tags ++ tagsOf rest

end

/-- What a start tag stores; the last name of the path is that of its element. -/
def attributeEntries (path : List String) (attributes : Attributes) : List (String × String) :=
  attributes.present.map fun (name, value) => ("/".intercalate path ++ "/@" ++ name, value)

/-- What a text stores below the given path, behind a start tag with the given attributes. -/
def textEntries (path : List String) (latest : Attributes) (content : String) :
    List (String × String) :=
  let text := Text.trim content
  let place := "/".intercalate path
  if text = "" then []
  else
    match latest.type? with
    | some (name, value) => [(place ++ "[@" ++ name ++ "=" ++ value ++ "]", text), (place, text)]
    | none => [(place, text)]

mutual

/-- What a node stores below the given path; `latest` are the attributes of the last start tag
before it. -/
def entries (path : List String) (latest : Attributes) : Node → List (String × String)
  | .element name attributes content =>
    attributeEntries (path ++ [name]) attributes ++
      entriesOf (path ++ [name]) attributes content
  | .text content => textEntries path latest content

def entriesOf (path : List String) (latest : Attributes) : List Node → List (String × String)
  | [] => []
  | node :: rest =>
    node.entries path latest ++ entriesOf path (node.tags.getLastD latest) rest

end

end Node

end Extractor.Xml
