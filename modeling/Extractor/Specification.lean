import Extractor.Key
/-!
# Specifications

What a search service's specification says: the format of its responses, the path to the element
that repeats for every record, and one template for each field of an entry.
-/

namespace Extractor

inductive Format where
  | xml
  | json
  deriving DecidableEq, Repr, Inhabited

namespace Format

def name : Format → String
  | .xml => "xml"
  | .json => "json"

def parse? (name : String) : Option Format :=
  if name = "xml" then some .xml else if name = "json" then some .json else none

/-- The parameter of an emitted function that holds the response. -/
def parameter : Format → String
  | .xml => "xmlData"
  | .json => "jsonData"

end Format

structure Rule where
  key : Key
  template : String
  deriving DecidableEq, Repr, Inhabited

structure Specification where
  format : Format
  /-- Names of the elements from the root down to the record. -/
  entriesPath : List String
  introduction : Option String
  fieldRules : List Rule
  valueRules : List Rule
  typeOverrides : List (Key × ValueClass)
  entryId : String
  entryType : String
  validation : Option String
  postMapping : Option String
  postFields : Option String
  deriving DecidableEq, Repr, Inhabited

namespace Specification

/-- The path to the records as a specification writes it. -/
def entries (spec : Specification) : String := "/".intercalate spec.entriesPath

def valueClass (spec : Specification) (key : Key) : ValueClass :=
  ((spec.typeOverrides.find? (·.1 = key)).map (·.2)).getD (ValueClass.guess key)

end Specification

end Extractor
