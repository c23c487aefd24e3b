import Extractor.Code.Stmt
import Extractor.Specification
import Extractor.Template.Expression
/-!
# Code for one entry

`assembleEntry` lists the statements that make an entry of a record's map and append it to the
result: first the hook on the map, then every field rule, every value rule, the hook on the
entry, its id and type, and last the append, under the validation if there is one.
-/

namespace Extractor.Parser

/-- The sort of rule that a variable belongs to. -/
inductive RuleKind where
  | field
  | value
  deriving DecidableEq, Repr, Inhabited

def RuleKind.name : RuleKind → String
  | .field => "field"
  | .value => "value"

/-- A local variable of the emitted code that holds what a rule computes. -/
structure Variable where
  key : String
  name : String
  kind : RuleKind
  /-- Name of the class that the value is wrapped in, for field rules. -/
  valueClass : Option String
  deriving DecidableEq, Repr, Inhabited

/-- A template as an expression, or the given one if nothing is in the template. -/
def expressionOr (empty template : String) : String :=
  let expression := Template.substitute (Text.trim template)
  if expression = "" then empty else expression

def isBraced (expression : String) : Bool :=
  ['\x7b'].isPrefixOf expression.toList && ['\x7d'].isSuffixOf expression.toList

/-- Inserts under the key what a variable holds, unless it is empty. -/
def insertUnlessEmpty (name key value : String) : Stmt :=
  .onlyIf ("!" ++ name ++ ".isEmpty()") ("entry->insert(" ++ key ++ ", " ++ value ++ ");")

def fieldStmts (spec : Specification) (rule : Rule) : List Stmt :=
  let name := rule.key.variableName
  let valueClass := (spec.valueClass rule.key).name
  let expression := expressionOr "QString()" rule.template
  let equals := if isBraced expression then " " else " = "
  [.code ("const QString " ++ name ++ equals ++ expression ++ ";"),
    insertUnlessEmpty name rule.key.expression
      ("Value() << QSharedPointer<" ++ valueClass ++ ">(new " ++ valueClass ++ "(" ++ name ++ "))")]

def fieldVariable (spec : Specification) (rule : Rule) : Variable :=
  ⟨rule.key.written, rule.key.variableName, .field, some (spec.valueClass rule.key).name⟩

def valueStmts (rule : Rule) : List Stmt :=
  let name := rule.key.variableName
  [.code ("const Value " ++ name ++ " = " ++ expressionOr "Value()" rule.template ++ ";"),
    insertUnlessEmpty name rule.key.expression name]

def valueVariable (rule : Rule) : Variable :=
  ⟨rule.key.written, rule.key.variableName, .value, none⟩

/-- A hook as a statement of its own. -/
def hook (template : String) : Stmt := .code (Template.substitute (Text.trim template))

def newEntry : Stmt :=
  .code ("QSharedPointer<Entry> entry = QSharedPointer<Entry>(new Entry(" ++
    Text.literalOf "placeholderType" ++ ", " ++ Text.literalOf "placeholderId" ++ "));")

/-- Calls a setter of the entry with a template, unless that is blank. -/
def setter (method template : String) : List Stmt :=
  if Text.isBlankText template then []
  else
    [.code ("entry->" ++ method ++ "(" ++ Template.substitute (Text.trim template) ++ ");")]

def appendEntry : String := "result.append(entry);"

def appendStmt (validation : Option String) : Stmt :=
  match validation with
  | some template =>
    if Text.isBlankText template then .code appendEntry
    else .onlyIf (Template.substitute (Text.trim template)) appendEntry
  | none => .code appendEntry

def assembleEntry (spec : Specification) : List Stmt :=
  (match spec.postMapping with
    | some template => [hook template, .blank]
    | none => []) ++
  newEntry ::
  spec.fieldRules.flatMap (fieldStmts spec) ++
  spec.valueRules.flatMap valueStmts ++
  (match spec.postFields with
    | some template => [.blank, hook template]
    | none => []) ++
  setter "setId" spec.entryId ++
  setter "setType" spec.entryType ++
  [appendStmt spec.validation]

/-- The variables that the rules of a specification declare, in order. -/
def declared (spec : Specification) : List Variable :=
  spec.fieldRules.map (fieldVariable spec) ++ spec.valueRules.map valueVariable

end Extractor.Parser
