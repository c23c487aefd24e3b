import Extractor.Position
/-!
# Faults of a specification

Why a specification is refused, and where. Each kind of fault has one constructor function below,
which words its message and its help.
-/

namespace Extractor

namespace Fault

inductive Kind where
  | missingSeparator
  | orphanContinuation
  | malformedKey
  | missingFormat
  | unsupportedFormat
  | missingEntries
  | emptyPathSegment
  deriving DecidableEq, Repr, Inhabited

def Kind.title : Kind → String
  | .missingSeparator => "Missing separator"
  | .orphanContinuation => "Orphan continuation line"
  | .malformedKey => "Malformed key"
  | .missingFormat => "Missing format"
  | .unsupportedFormat => "Unsupported format"
  | .missingEntries => "Missing entries path"
  | .emptyPathSegment => "Empty path segment"

end Fault

structure Fault where
  kind : Fault.Kind
  message : String
  span : Span
  help : Option String
  deriving DecidableEq, Repr, Inhabited

namespace Fault

/-- Kind and message on one line. -/
def summary (f : Fault) : String := f.kind.title ++ ": " ++ f.message

def missingSeparator (line : String) (span : Span) : Fault where
  kind := .missingSeparator
  message := "expected `key: value`, found `" ++ line ++ "`"
  span := span
  help := some "separate the key from its value with a colon followed by a space"

def orphanContinuation (span : Span) : Fault where
  kind := .orphanContinuation
  message := "indented line does not continue any key"
  span := span
  help := some "only lines following a `key: value` line may be indented"

/-- The key starts with `opening` but does not go on with a name and a closing bracket. -/
def malformedKey (key opening : String) (span : Span) : Fault where
  kind := .malformedKey
  message := "malformed key `" ++ key ++ "`"
  span := span
  help := some ("expected `" ++ opening ++ "NAME]`")

def missingFormat (span : Span) : Fault where
  kind := .missingFormat
  message := "missing `format` key"
  span := span
  help := some "add `format: xml` or `format: json`"

def unsupportedFormat (name : String) (span : Span) : Fault where
  kind := .unsupportedFormat
  message := "unsupported format `" ++ name ++ "`"
  span := span
  help := some "supported formats are `xml` and `json`"

def missingEntries (span : Span) : Fault where
  kind := .missingEntries
  message := "missing `entries` path"
  span := span
  help := some ("add the slash-separated path to the repeating record, " ++
    "e.g. `entries: feed/entry`")

def emptyPathSegment (path : String) (span : Span) : Fault where
  kind := .emptyPathSegment
  message := "entries path `" ++ path ++ "` contains an empty segment"
  span := span
  help := none

end Fault

end Extractor
