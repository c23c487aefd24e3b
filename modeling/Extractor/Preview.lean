import Extractor.Json.Quoted
import Extractor.Specification
import Extractor.Store
import Extractor.Template
/-!
# Previews

What the rules of a specification make of one record, when the templates are rendered as text and
not evaluated: the code in them stays as it is written. A rule sees the rules before it, fields
before values, and the id and type of the entry see all rules.
-/

namespace Extractor

/-- The rendered template of one rule. -/
structure Rendered where
  key : Key
  text : String
  deriving DecidableEq, Repr, Inhabited

namespace Rendered

/-- The variable that holds the text in emitted code. -/
def variableName (r : Rendered) : String := r.key.variableName

/-- An empty text is not put into the entry. -/
def isStored (r : Rendered) : Bool := r.text != ""

end Rendered

structure Preview where
  fields : List Rendered
  values : List Rendered
  id : Option String
  entryType : Option String
  deriving DecidableEq, Repr, Inhabited

namespace Preview

/-- The text stored last under a key, empty if there is none. -/
def assigned (earlier : List Rendered) (key : Key) : String :=
  ((earlier.reverse.find? fun r => r.isStored && r.key = key).map Rendered.text).getD ""

/-- Placeholders as texts of a record and of the rules rendered earlier. -/
def resolver (store : Store) (earlier : List Rendered) : Template.Resolver where
  field := assigned earlier
  list path := Json.Quoted.writeArray (store.get path)
  join := store.join

def render (store : Store) (earlier : List Rendered) (template : String) : String :=
  Template.fill (resolver store earlier) (Text.trim template)

/-- Renders rules in order, each in sight of those before it. -/
def renderRules (store : Store) (earlier : List Rendered) : List Rule → List Rendered
  | [] => []
  | rule :: rest =>
    let rendered : Rendered := ⟨rule.key, render store earlier rule.template⟩
    rendered :: renderRules store (earlier ++ [rendered]) rest

/-- A template that is not blank, in sight of all rules. -/
def renderUnlessBlank (store : Store) (all : List Rendered) (template : String) :
    Option String :=
  if Text.isBlankText template then none else some (render store all template)

def ofStore (spec : Specification) (store : Store) : Preview :=
  let fields := renderRules store [] spec.fieldRules
  let values := renderRules store fields spec.valueRules
  ⟨fields, values, renderUnlessBlank store (fields ++ values) spec.entryId,
    renderUnlessBlank store (fields ++ values) spec.entryType⟩

/-- The first stored text under a key, among the fields and then the values. -/
def get? (p : Preview) (key : Key) : Option String :=
  ((p.fields ++ p.values).find? fun r => r.isStored && r.key = key).map Rendered.text

end Preview

end Extractor
