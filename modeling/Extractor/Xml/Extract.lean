import Extractor.Extraction
import Extractor.Xml.Record
/-!
# The records of an XML document

The root has to have the first name of the path. Each further name but the last is looked for
from there on, wherever it stands, and must be found; every element with the last name behind
that point is a record. A fault in the document is reported by every search that runs into it.
-/

namespace Extractor.Xml

/-- The tokens behind the first start tag with the name. -/
def afterStart? (name : String) : List Located → Option (List Located)
  | [] => none
  | t :: rest =>
    match t.token with
    | .start n _ => if n = name then some rest else afterStart? name rest
    | _ => afterStart? name rest

theorem length_of_afterStart? {name : String} {tokens rest : List Located}
    (h : afterStart? name tokens = some rest) : rest.length < tokens.length := by
  induction tokens with
  | nil => simp [afterStart?] at h
  | cons t ts ih =>
    simp only [afterStart?] at h
    split at h
    · split at h
      · simp_all
      · exact Nat.lt_succ_of_lt (ih h)
    · exact Nat.lt_succ_of_lt (ih h)

/-- The first token that is not text, and the tokens behind it. -/
def firstTag? : List Located → Option (Located × List Located)
  | [] => none
  | t :: rest =>
    match t.token with
    | .text _ => firstTag? rest
    | _ => some (t, rest)

namespace Stream

/-- The remark about the fault, once no token is left before it. -/
def remarks (s : Stream) (rest : List Located) : List String :=
  match s.stop, rest with
  | some stop, [] =>
    ["Invalid XML while parsing data at offset " ++ toString stop.offset ++ ": " ++
      stop.fault.message]
  | _, _ => []

/-- Line breaks among the characters that start within so many bytes. -/
def lineBreaks : Nat → List Char → Nat
  | _, [] => 0
  | 0, _ :: _ => 0
  | bytes + 1, c :: rest => (if c = '\n' then 1 else 0) + lineBreaks (bytes + 1 - c.utf8Size) rest

/-- The line, from one, at which reading stands after a token with the given offset. -/
def line (s : Stream) (offset : Nat) (rest : List Located) : Nat :=
  let offset :=
    match s.stop, rest with
    | some stop, [] => stop.offset
    | _, _ => offset
  lineBreaks offset s.document + 1

/-- The line at which reading stands when no token is left. -/
def lastLine (s : Stream) : Nat := s.line ((s.tokens.getLast?.map Located.offset).getD 0) []

/-- Reads one record and makes the remark that it ran into the fault. -/
def oneRecord (s : Stream) (name : String) (tokens : List Located) : Store × List String :=
  let (store, rest) := record name tokens
  (store, s.remarks rest)

/-- All records with the name in the given tokens. -/
def allRecords (s : Stream) (name : String) (tokens : List Located) : Extraction :=
  match _h : afterStart? name tokens with
  | none => ⟨true, [], s.remarks []⟩
  | some content =>
    let (store, remarks) := s.oneRecord name content
    let others := allRecords s name (record name content).2
    ⟨others.ok, store :: others.records, remarks ++ others.diagnostics⟩
termination_by tokens.length
decreasing_by
  have h1 := length_of_afterStart? _h
  have h2 := length_recordFrom_le name Reading.empty content
  simp only [record]
  omega

/-- The records below an element whose start tag stands before the given tokens. -/
def below (s : Stream) (parent : String) : List String → List Located → Extraction
  | [], tokens =>
    let (store, remarks) := s.oneRecord parent tokens
    ⟨true, [store], remarks⟩
  | [last], tokens => s.allRecords last tokens
  | segment :: next :: path, tokens =>
    match afterStart? segment tokens with
    | some content => (below s segment (next :: path) content).remark (s.remarks [])
    | none =>
      (Extraction.mk false [] (s.remarks [])).remark
        ["Expected '" ++ segment ++ "' inside '" ++ parent ++ "' at XML line " ++
          toString s.lastLine]

def noStart (s : Stream) (line : Nat) : Extraction :=
  .failure ("Could not read start element at XML line " ++ toString line ++ ": " ++
    ((s.stop.map (·.fault.message)).getD "no root element"))

/-- The records at a path. -/
def extract (s : Stream) : List String → Extraction
  | [] => .empty
  | root :: path =>
    match firstTag? s.tokens with
    | some (⟨.start name _, offset⟩, rest) =>
      if name = root then s.below root path rest
      else
        .failure ("Expected '" ++ root ++ "', got \"" ++ name ++ "\" at XML line " ++
          toString (s.line offset rest))
    | some (⟨_, offset⟩, rest) => s.noStart (s.line offset rest)
    | none => s.noStart s.lastLine

end Stream

/-- The records of a document at a path. -/
def extract (document : String) (path : List String) : Extraction :=
  (Stream.read document).extract path

end Extractor.Xml
