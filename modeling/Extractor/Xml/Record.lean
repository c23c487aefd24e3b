import Extractor.Store
import Extractor.Text.Blank
import Extractor.Text.Search
import Extractor.Xml.Token
/-!
# The values of an XML record

`record` reads the content of an element into a store, up to its own end tag. Texts are stored
under the names of the open elements inside the record, attributes under these names and their
own; both are trimmed, and blank ones are left out. While the last start tag had an attribute
that tells a type, texts are stored under that attribute, too.
-/

namespace Extractor.Xml

/-- What reading a record has come to. -/
structure Reading where
  /-- The open elements inside the record, innermost first. -/
  opened : List String
  /-- The attribute of the last start tag that tells a type. -/
  typed : Option (String × String)
  store : Store
  deriving DecidableEq, Repr, Inhabited

namespace Reading

def empty : Reading := ⟨[], none, Store.empty⟩

def path (r : Reading) : String := "/".intercalate r.opened.reverse

/-- The name of the attribute tells that its value is a type. -/
def tellsType (name : String) : Bool :=
  Text.occursIn ['t', 'y', 'p', 'e'] (name.toList.map Char.toLower)

def addAttribute (r : Reading) : String × String → Reading
  | (name, value) =>
    let text := Text.trim value
    if text = "" then r
    else
      { r with
        typed := if tellsType name then some (name, text) else r.typed
        store := r.store.append (r.path ++ "/@" ++ name) text }

def addText (r : Reading) (content : String) : Reading :=
  let text := Text.trim content
  if text = "" then r
  else
    let store :=
      match r.typed with
      | some (name, value) =>
        r.store.append (r.path ++ "[@" ++ name ++ "=" ++ value ++ "]") text
      | none => r.store
    { r with store := store.append r.path text }

def step (r : Reading) : Token → Reading
  | .start name attributes =>
    attributes.foldl addAttribute { r with opened := name :: r.opened, typed := none }
  | .stop name => if r.opened.head? = some name then { r with opened := r.opened.tail } else r
  | .text content => r.addText content

/-- The token is the end tag of the record itself. -/
def endsAt (r : Reading) (record : String) (token : Token) : Bool :=
  r.opened.isEmpty && token == .stop record

end Reading

/-- Goes on reading the record with the given name; gives its store and the tokens behind it. -/
def recordFrom (name : String) (r : Reading) : List Located → Store × List Located
  | [] => (r.store, [])
  | t :: rest =>
    if r.endsAt name t.token then (r.store, rest) else recordFrom name (r.step t.token) rest

/-- Reads a record whose start tag stands before the given tokens. -/
def record (name : String) (tokens : List Located) : Store × List Located :=
  recordFrom name Reading.empty tokens

theorem length_recordFrom_le (name : String) (r : Reading) (tokens : List Located) :
    (recordFrom name r tokens).2.length ≤ tokens.length := by
  induction tokens generalizing r with
  | nil => simp [recordFrom]
  | cons t rest ih =>
    simp only [recordFrom]
    split
    · simp
    · exact Nat.le_succ_of_le (ih _)

end Extractor.Xml
