import Extractor.Parser.Options
import Extractor.Text.Numeral
import Extractor.Text.Search
/-!
# Arguments of the command line

Long options take their value from the same argument, after an equals sign, or from the next one,
which then must not start with a hyphen. No option may be given twice, and two hyphens alone end
the options.
-/

namespace Extractor

/-- Arguments sorted by what they are. -/
structure Arguments where
  flags : List String
  values : List (String × String)
  positional : List String
  deriving DecidableEq, Repr, Inhabited

namespace Arguments

def empty : Arguments := ⟨[], [], []⟩

/-- The options that a command knows. -/
structure Known where
  flags : List String
  valued : List String

/-- Looks like an option; a hyphen alone does not. -/
def isHyphenated (argument : String) : Bool :=
  match argument.toList with
  | '-' :: _ :: _ => true
  | _ => false

/-- Name and value of a long option, without the hyphens. -/
def longOption? (argument : String) : Option (String × Option String) :=
  match argument.toList with
  | '-' :: '-' :: c :: rest =>
    match Text.breakAt? ['='] (c :: rest) with
    | some (name, value) => some (String.ofList name, some (String.ofList value))
    | none => some (String.ofList (c :: rest), none)
  | _ => none

def addFlag (a : Arguments) (name : String) : Option Arguments :=
  if a.flags.contains name then none else some { a with flags := a.flags ++ [name] }

def addValue (a : Arguments) (name value : String) : Option Arguments :=
  if (a.values.lookup name).isSome then none
  else some { a with values := a.values ++ [(name, value)] }

def addPositional (a : Arguments) (arguments : List String) : Arguments :=
  { a with positional := a.positional ++ arguments }

/-- Sorts arguments, while an option may be waiting for its value. -/
def sort (known : Known) (a : Arguments) : Option String → List String → Option Arguments
  | none, [] => some a
  | some _, [] => none
  | some name, value :: rest =>
    if isHyphenated value then none
    else (a.addValue name value).bind (sort known · none rest)
  | none, argument :: rest =>
    if argument = "--" then some (a.addPositional rest)
    else
      match longOption? argument with
      | some (name, none) =>
        if known.flags.contains name then (a.addFlag name).bind (sort known · none rest)
        else if known.valued.contains name then sort known a (some name) rest
        else none
      | some (name, some value) =>
        if known.valued.contains name then (a.addValue name value).bind (sort known · none rest)
        else none
      | none =>
        if isHyphenated argument then none
        else sort known (a.addPositional [argument]) none rest

/-- A value that is a number, or the given one if there is none. -/
def number? (a : Arguments) (name : String) (otherwise : Nat) : Option Nat :=
  match a.values.lookup name with
  | some value => Text.word? value
  | none => some otherwise

end Arguments

/-- Where a specification comes from. -/
inductive Source where
  | input
  | path (path : String)
  deriving DecidableEq, Repr

inductive Command where
  | generate (source : Source) (asJson : Bool) (options : Parser.Options)
  | extract (specification document : String) (maxRecords : Nat)
  deriving DecidableEq, Repr

namespace Command

def generateOptions : Arguments.Known where
  flags := ["stdin", "json"]
  valued := ["function", "depth", "log-category", "max-records"]

def extractOptions : Arguments.Known where
  flags := []
  valued := ["max-records"]

def generateOf? (a : Arguments) : Option Command := do
  let defaults : Parser.Options := {}
  let depth ←
    match a.values.lookup "depth" with
    | some value => (Text.word? value).map some
    | none => some none
  let maxRecords ← a.number? "max-records" defaults.maxRecords
  if a.positional.contains "" then none
  let source ←
    match a.positional with
    | [] => if a.flags.contains "stdin" then some Source.input else none
    | [path] => some (if a.flags.contains "stdin" then .input else .path path)
    | _ => none
  return .generate source (a.flags.contains "json") {
    functionName := a.values.lookup "function"
    baseDepth := depth
    logCategory := (a.values.lookup "log-category").getD defaults.logCategory
    maxRecords := maxRecords }

def extractOf? (a : Arguments) : Option Command := do
  let maxRecords ← a.number? "max-records" 1024
  if a.positional.contains "" then none
  match a.positional with
  | [specification, document] => return .extract specification document maxRecords
  | _ => none

/-- The command that some arguments give, if they are used rightly. -/
def parse? : List String → Option Command
  | "generate" :: rest =>
    (Arguments.sort generateOptions .empty none rest).bind generateOf?
  | "flatten" :: rest =>
    (Arguments.sort extractOptions .empty none rest).bind extractOf?
  | _ => none

end Command

end Extractor
