import Extractor.Specification
import Extractor.Specification.Line
import Extractor.Text.Lines
/-!
# Loading a specification

A draft collects the sections of a specification, one for each key, while its lines are read.
Lines with the same key add to one section, in the order of the file, whatever stands between
them. `Specification.read` turns the finished draft into a specification and keeps the warnings,
also those before a fault.
-/

namespace Extractor

/-- What a key of a specification sets. -/
inductive Slot where
  | format
  | entries
  | introduction
  | entryId
  | entryType
  | validation
  | postMapping
  | postFields
  | field (key : Key)
  | value (key : Key)
  | itemType (key : Key)
  deriving DecidableEq, Repr, Inhabited

namespace Slot

/-- The slot of a key that is one fixed word. -/
def ofWord? (word : String) : Option Slot :=
  if word = "format" then some .format
  else if word = "entries" then some .entries
  else if word = "introduction" then some .introduction
  else if word = "entryid" then some .entryId
  else if word = "entrytype" then some .entryType
  else if word = "entryvalidation" then some .validation
  else if word = "postprocessingmapping" then some .postMapping
  else if word = "postprocessingfields" then some .postFields
  else none

/-- The openings of the keys that name a field, and the slot of each. -/
def openings : List (String × (Key → Slot)) :=
  [("field[", .field), ("valueItemType[", .itemType), ("value[", .value)]

/-- The name between an opening and a closing bracket, when it is not blank. -/
def bracketed? (rest : List Char) : Option String :=
  match [']'].isSuffixOf? rest with
  | some inner => if inner.all Text.isBlank then none else some (String.ofList inner)
  | none => none

/-- The slot of a key with one of the given openings, `none` when it has none of them. -/
def ofBracketed? (key : String) (keySpan : Span) :
    List (String × (Key → Slot)) → Except Fault (Option Slot)
  | [] => .ok none
  | (opening, slot) :: others =>
    match opening.toList.isPrefixOf? key.toList with
    | none => ofBracketed? key keySpan others
    | some rest =>
      match bracketed? rest with
      | some name => .ok (some (slot (Key.parse name)))
      | none => .error (.malformedKey key opening keySpan)

def ofKey? (key : String) (keySpan : Span) : Except Fault (Option Slot) :=
  match ofWord? key with
  | some slot => .ok (some slot)
  | none => ofBracketed? key keySpan openings

def field? : Slot → Option Key
  | .field key => some key
  | _ => none

def value? : Slot → Option Key
  | .value key => some key
  | _ => none

def itemType? : Slot → Option Key
  | .itemType key => some key
  | _ => none

end Slot

/-- Parts of a specification that have no effect. -/
inductive Warning where
  | unknownKey (line : Nat) (key : String)
  | overrideWithoutField (line : Nat) (key : Key)
  deriving DecidableEq, Repr, Inhabited

/-- The text given for a slot, and the line that first gave some. -/
structure Section where
  slot : Slot
  text : String
  span : Span
  deriving DecidableEq, Repr, Inhabited

structure Draft where
  /-- In the order of their first lines. -/
  sections : List Section
  /-- Where an indented line goes: nowhere yet, or the slot of the last key, if it has one. -/
  current : Option (Option Slot)
  warnings : List Warning
  deriving DecidableEq, Repr, Inhabited

namespace Draft

def empty : Draft := ⟨[], none, []⟩

/-- Adds to the section of a slot, which is opened at the end if there is none. -/
def addText (slot : Slot) (text : String) (span : Span) : List Section → List Section
  | [] => [⟨slot, text, span⟩]
  | s :: rest =>
    if s.slot = slot then { s with text := s.text ++ text } :: rest
    else s :: addText slot text span rest

def step (d : Draft) : Line → Except Fault Draft
  | .continuation text span =>
    match d.current with
    | none => .error (.orphanContinuation span)
    | some none => .ok d
    | some (some slot) =>
      .ok { d with sections := addText slot ("\n" ++ text) span d.sections }
  | .entry key value keySpan span => do
    match ← Slot.ofKey? key keySpan with
    | some slot =>
      return { d with sections := addText slot value span d.sections, current := some (some slot) }
    | none =>
      return { d with
        current := some none
        warnings := d.warnings ++ [.unknownKey (span.start.line + 1) key] }

/-- Reads lines up to the first fault; gives the draft at that point and the fault. -/
def readLines (d : Draft) : List Line → Draft × Option Fault
  | [] => (d, none)
  | line :: rest =>
    match d.step line with
    | .ok next => readLines next rest
    | .error fault => (d, some fault)

def find? (d : Draft) (slot : Slot) : Option Section := d.sections.find? (·.slot = slot)

def text (d : Draft) (slot : Slot) : String := ((d.find? slot).map Section.text).getD ""

/-- The text of a slot, unless it is blank. -/
def textUnlessBlank (d : Draft) (slot : Slot) : Option String :=
  if Text.isBlankText (d.text slot) then none else some (d.text slot)

def span (d : Draft) (slot : Slot) (otherwise : Span) : Span :=
  ((d.find? slot).map Section.span).getD otherwise

/-- The sections whose slot has a key of the wanted sort, with that key. -/
def keyed (d : Draft) (sort : Slot → Option Key) : List (Key × Section) :=
  d.sections.filterMap fun s => (sort s.slot).map (·, s)

def rules (d : Draft) (sort : Slot → Option Key) : List Rule :=
  (d.keyed sort).map fun (key, s) => ⟨key, s.text⟩

def format (d : Draft) (atEnd : Span) : Except Fault Format :=
  let name := Text.trim (d.text .format)
  if name = "" then .error (.missingFormat atEnd)
  else
    match Format.parse? name with
    | some format => .ok format
    | none => .error (.unsupportedFormat name (d.span .format atEnd))

def entriesPath (d : Draft) (atEnd : Span) : Except Fault (List String) :=
  let path := Text.trim (d.text .entries)
  if path = "" then .error (.missingEntries atEnd)
  else
    let segments := (Text.pieces '/' path).map Text.trim
    if segments.contains "" then .error (.emptyPathSegment path (d.span .entries atEnd))
    else .ok segments

def finish (d : Draft) (atEnd : Span) : Except Fault Specification := do
  let format ← d.format atEnd
  let entriesPath ← d.entriesPath atEnd
  return {
    format := format
    entriesPath := entriesPath
    introduction := d.textUnlessBlank .introduction
    fieldRules := d.rules Slot.field?
    valueRules := d.rules Slot.value?
    typeOverrides := (d.keyed Slot.itemType?).map fun (key, s) => (key, ValueClass.parse s.text)
    entryId := d.text .entryId
    entryType := d.text .entryType
    validation := d.textUnlessBlank .validation
    postMapping := d.textUnlessBlank .postMapping
    postFields := d.textUnlessBlank .postFields }

/-- Warnings about value classes of fields that no rule fills. -/
def overrideWarnings (d : Draft) : List Warning :=
  (d.keyed Slot.itemType?).filterMap fun (key, s) =>
    if (d.keyed Slot.field?).any (·.1 = key) then none
    else some (.overrideWithoutField (s.span.start.line + 1) key)

end Draft

/-- What came of loading a specification. -/
structure Loading where
  warnings : List Warning
  result : Except Fault Specification

namespace Specification

def read (source : String) : Loading :=
  match Line.readAll source with
  | .error fault => ⟨[], .error fault⟩
  | .ok lines =>
    let (draft, fault?) := Draft.empty.readLines lines
    match fault? with
    | some fault => ⟨draft.warnings, .error fault⟩
    | none =>
      match draft.finish (Span.ofEnd (Text.physicalLines source).length) with
      | .error fault => ⟨draft.warnings, .error fault⟩
      | .ok spec => ⟨draft.warnings ++ draft.overrideWarnings, .ok spec⟩

def load (source : String) : Except Fault Specification := (read source).result

end Specification

end Extractor
