import Extractor.Command.Arguments
import Extractor.Command.Progress
import Extractor.Disk
import Extractor.Report
/-!
# Running a command

A run is a function of the arguments, the disk and the standard input. It gives the exit code,
the output, the messages and the disk afterwards. A directory run writes one file after another
and stops at the first specification that cannot be read, compiled or written.
-/

namespace Extractor

/-- What goes to the standard error. The time of a run is only known when it has ended. -/
inductive Message where
  | text (content : String)
  | finished (count : Nat)
  deriving DecidableEq, Repr

def Message.render (elapsed : String) : Message → String
  | .text content => content
  | .finished count => "\n" ++ Progress.finished false count elapsed ++ "\n"

structure Outcome where
  code : Nat
  output : String
  messages : List Message
  disk : Disk

namespace Outcome

/-- Nothing but output. -/
def success (disk : Disk) (output : String) : Outcome := ⟨0, output, [], disk⟩

/-- Ends a run with a message. -/
def failure (disk : Disk) (message : String) : Outcome := ⟨1, "", [.text message], disk⟩

def errors (o : Outcome) (elapsed : String) : String :=
  String.join (o.messages.map (Message.render elapsed))

end Outcome

/-- A message and what caused it. -/
def errorText (message : String) (cause : Option String) : String :=
  "Error: " ++ message ++ "\n" ++
    match cause with
    | some cause => "\nCaused by:\n    " ++ cause ++ "\n"
    | none => ""

/-- The message about a file that cannot be read. -/
def unreadableText (path : String) (cause : Disk.Cause) : String :=
  errorText (Failure.unreadable path cause.message).message (some cause.message)

namespace Parser

/-- Reads a specification and emits its parser. -/
def compileFile (disk : Disk) (path : String) (o : Options) : Except Failure Emitted :=
  match disk.read path with
  | .ok source => compile source o
  | .error cause => .error (.unreadable path cause.message)

end Parser

namespace Command

/-- Prints emitted code, or why there is none. -/
def printParser (disk : Disk) (source : String) (asJson : Bool) (o : Parser.Options) : Outcome :=
  match Parser.compile source o with
  | .ok emitted =>
    .success disk
      (if asJson then (Report.emitted emitted).compact ++ "\n" else emitted.code)
  | .error failure => .failure disk (failure.render .plain source o.inputName)

def generateInput (disk : Disk) (input : ByteArray) (asJson : Bool) (o : Parser.Options) :
    Outcome :=
  match String.fromUTF8? input with
  | some source => printParser disk source asJson o
  | none =>
    .failure disk (errorText "failed to read stdin" (some Disk.Cause.notText.message))

/-- Compiles one specification to a file; gives the disk afterwards, or a message. -/
def writeParser (disk : Disk) (path output : String) (o : Parser.Options) : Except String Disk :=
  match disk.read path with
  | .error cause => .error (unreadableText path cause)
  | .ok source =>
    match Parser.compile source { o with inputName := path } with
    | .error failure => .error (failure.render .plain source path)
    | .ok emitted =>
      match disk.write output emitted.code with
      | .error cause => .error (errorText ("failed to write " ++ output) (some cause.message))
      | .ok disk => .ok disk

/-- Compiles specifications to their outputs in order, up to the first that fails. -/
def writeParsers (o : Parser.Options) (disk : Disk) : List (String × String) →
    Bool × List Message × Disk
  | [] => (true, [], disk)
  | (path, output) :: rest =>
    match writeParser disk path output o with
    | .error message => (false, [.text message], disk)
    | .ok disk =>
      let (ok, messages, disk) := writeParsers o disk rest
      (ok, .text (Progress.written false path output ++ "\n") :: messages, disk)

/-- The specifications below a directory and their outputs, ascending in the parts of their
paths. -/
def specificationsBelow (disk : Disk) (directory : String) : List (String × String) :=
  let sorted := (disk.filesBelow directory).mergeSort Path.precedes
  sorted.filterMap fun parts =>
    let path := Path.below directory parts
    (Path.output? path).map (path, ·)

def generateDirectory (disk : Disk) (directory : String) (o : Parser.Options) : Outcome :=
  match specificationsBelow disk directory with
  | [] =>
    .failure disk (errorText
      ("no *" ++ Path.specificationEnd ++ " files found in " ++ directory) none)
  | specifications =>
    let (ok, messages, disk) := writeParsers o disk specifications
    if ok then ⟨0, "", messages ++ [.finished specifications.length], disk⟩
    else ⟨1, "", messages, disk⟩

def generatePath (disk : Disk) (path : String) (asJson : Bool) (o : Parser.Options) : Outcome :=
  match disk.item path with
  | .file _ =>
    match disk.read path with
    | .ok source => printParser disk source asJson { o with inputName := path }
    | .error cause => .failure disk (unreadableText path cause)
  | .folder => generateDirectory disk path o
  | .nothing => .failure disk (errorText (path ++ " does not exist") none)

/-- Prints the records of a document with their previews. -/
def extractFile (disk : Disk) (specification document : String) (maxRecords : Nat) : Outcome :=
  match disk.read specification with
  | .error cause => .failure disk (unreadableText specification cause)
  | .ok source =>
    match Specification.load source with
    | .error fault => .failure disk (fault.render .plain source specification)
    | .ok spec =>
      match disk.read document with
      | .error cause => .failure disk (unreadableText document cause)
      | .ok text =>
        let report := Report.extraction spec (spec.extract text maxRecords)
        .success disk (report.pretty 0 ++ "\n")

/-- Runs a command that was given rightly. -/
def run (disk : Disk) (input : ByteArray) : Command → Outcome
  | .generate .input asJson o => generateInput disk input asJson o
  | .generate (.path path) asJson o => generatePath disk path asJson o
  | .extract specification document maxRecords =>
    extractFile disk specification document maxRecords

def usage : String :=
  "Usage: bibsearch-codegen generate [PATH] [--stdin] [--json] [--function NAME] [--depth N] " ++
    "[--log-category NAME] [--max-records N]\n" ++
    "       bibsearch-codegen flatten SPEC DOCUMENT [--max-records N]\n"

/-- Runs a command line. -/
def runArguments (arguments : List String) (disk : Disk) (input : ByteArray) : Outcome :=
  match parse? arguments with
  | some command => run disk input command
  | none => ⟨2, "", [.text usage], disk⟩

end Command

end Extractor
