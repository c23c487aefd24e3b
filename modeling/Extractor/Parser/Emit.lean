import Extractor.Code.Layout
import Extractor.Fault.Render
import Extractor.Parser.Json
import Extractor.Parser.Xml
import Extractor.Specification.Draft
/-!
# Emitting a parser

The code for a specification: a banner, the introduction that the specification asks for, and the
body for its format, all in one function if a name for it is given.
-/

namespace Extractor.Parser

/-- Emitted code and the variables that its rules declare. -/
structure Emitted where
  code : String
  declared : List Variable
  deriving DecidableEq, Repr

def bodyFor (format : Format) (spec : Specification) (o : Options) : List Stmt :=
  match format with
  | .xml => Xml.body (assembleEntry spec) o spec.entriesPath
  | .json => Json.body (assembleEntry spec) o spec.entries

def banner (o : Options) : List Stmt := [
  .comment "Source code generated by bibsearch-codegen",
  .comment ("using information from configuration file '" ++ o.inputName ++ "'"),
  .blank]

def introduction (spec : Specification) : List Stmt :=
  match spec.introduction with
  | some text => [.code text, .blank]
  | none => []

/-- The introduction and the body for the format of the specification. -/
def content (spec : Specification) (o : Options) : List Stmt :=
  introduction spec ++ bodyFor spec.format spec o

def functionHead (name : String) (format : Format) : String :=
  "QVector<QSharedPointer<Entry>> " ++ name ++ "(const QByteArray &" ++ format.parameter ++
    ", bool *ok)"

/-- Everything after the banner. -/
def stmts (spec : Specification) (o : Options) : List Stmt :=
  match o.functionName with
  | none => content spec o
  | some name => [
    .block (functionHead name spec.format)
      (.code "QVector<QSharedPointer<Entry>> result;" :: content spec o ++
        [.blank, .code "return result;"])]

def page (spec : Specification) (o : Options) : Page :=
  (Page.empty.add (banner o)).add (stmts spec o)

def emit (spec : Specification) (o : Options) : Emitted :=
  ⟨(page spec o).text o.depth, declared spec⟩

/-- Loads a specification and emits its parser. -/
def compile (source : String) (o : Options) : Except Failure Emitted :=
  match Specification.load source with
  | .ok spec => .ok (emit spec o)
  | .error fault => .error (.malformed fault)

end Extractor.Parser
