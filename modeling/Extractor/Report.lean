import Extractor.Extraction
import Extractor.Json.Extract
import Extractor.Json.Tree
import Extractor.Parser.Emit
import Extractor.Preview
import Extractor.Xml.Extract
/-!
# Reports

What the program tells other programs, as JSON: the records of a sample document with their
previews, and emitted code with its variables.
-/

namespace Extractor

/-- The records of a document in the format of a specification. -/
def Specification.extract (spec : Specification) (document : String) (maxRecords : Nat) :
    Extraction :=
  match spec.format with
  | .xml => Xml.extract document spec.entriesPath
  | .json => Json.extract document spec.entriesPath maxRecords

namespace Report

open Json (Tree)

def texts (list : List String) : Tree := .list (list.map .text)

/-- A part that is left out if there is nothing in it. -/
def optional (name : String) (text : Option String) : List (String × Tree) :=
  (text.map fun text => (name, Tree.text text)).toList

def key : Key → Tree
  | .symbol name => .record [("kind", .text "symbol"), ("name", .text name)]
  | .literal text => .record [("kind", .text "literal"), ("name", .text text)]

def store (s : Store) : Tree := .record (s.toList.map fun (path, values) => (path, texts values))

def rendered (r : Rendered) : Tree := .record [
  ("key", key r.key),
  ("variable", .text r.variableName),
  ("text", .text r.text),
  ("stored", .bool r.isStored)]

def preview (p : Preview) : Tree := .record ([
  ("fields", .list (p.fields.map rendered)),
  ("values", .list (p.values.map rendered))] ++
  optional "id" p.id ++ optional "entry_type" p.entryType)

/-- Each record of a document with its preview. -/
def extraction (spec : Specification) (e : Extraction) : Tree := .record [
  ("ok", .bool e.ok),
  ("diagnostics", texts e.diagnostics),
  ("records", .list (e.records.map fun s => .record [
    ("store", store s),
    ("preview", preview (Preview.ofStore spec s))]))]

def variableName (v : Parser.Variable) : Tree := .record ([
  ("key", .text v.key),
  ("name", .text v.name),
  ("kind", .text v.kind.name)] ++
  optional "value_type" v.valueClass)

def emitted (e : Parser.Emitted) : Tree := .record [
  ("code", .text e.code),
  ("variables", .list (e.declared.map variableName))]

end Report

end Extractor
