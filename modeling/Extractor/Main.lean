import Extractor.Command.Run
/-!
# The command line program

Reads what a command needs from the disk, runs the command, and writes the files that the run has
changed.
-/

namespace Extractor.Program

/-- All bytes up to the end of a stream. -/
partial def readBytes (stream : IO.FS.Stream) (before : ByteArray) : IO ByteArray := do
  let bytes ← stream.read 65536
  if bytes.isEmpty then return before else readBytes stream (before ++ bytes)

/-- The names on the way from the root, links left as they are. -/
def place (workingDirectory : List String) (path : String) : List String :=
  let start := if path.startsWith "/" then [] else workingDirectory
  (path.splitOn "/").foldl (fun names part =>
    if part = "" ∨ part = "." then names
    else if part = ".." then names.dropLast
    else names ++ [part]) start

/-- A file or folder in a folder, and what lies below it. Only specifications are read; what is
in other files does not matter. -/
partial def addEntry (folder : List String) (disk : Disk) (entry : IO.FS.DirEntry) :
    IO Disk := do
  let names := folder ++ [entry.fileName]
  match (← entry.path.symlinkMetadata).type with
  | .dir =>
    (← entry.path.readDir).foldlM (addEntry names)
      { disk with folders := disk.folders ++ [names] }
  | .file =>
    let content ←
      if entry.fileName.endsWith Path.specificationEnd then IO.FS.readBinFile entry.path
      else pure ByteArray.empty
    return { disk with files := disk.files ++ [(names, content)] }
  | _ => return disk

/-- Adds what a path leads to; a path that leads nowhere adds nothing. -/
def addPath (disk : Disk) (path : String) : IO Disk := do
  let names := place disk.workingDirectory path
  try
    let real ← IO.FS.realPath path
    if ← real.isDir then
      (← real.readDir).foldlM (addEntry names) { disk with folders := disk.folders ++ [names] }
    else
      return { disk with files := disk.files ++ [(names, ← IO.FS.readBinFile real)] }
  catch _ => return disk

/-- The paths that a command names. -/
def paths : Option Command → List String
  | some (.generate (.path path) _ _) => [path]
  | some (.extract specification document _) => [specification, document]
  | _ => []

def readsInput : Option Command → Bool
  | some (.generate .input _ _) => true
  | _ => false

def run (arguments : List String) : IO UInt32 := do
  let started ← IO.monoNanosNow
  let command := Command.parse? arguments
  let workingDirectory := place [] (← IO.FS.realPath ".").toString
  let disk ← (paths command).foldlM addPath ⟨workingDirectory, [], []⟩
  let input ←
    if readsInput command then readBytes (← IO.getStdin) ByteArray.empty
    else pure ByteArray.empty
  let outcome := Command.runArguments arguments disk input
  for (names, content) in outcome.disk.files do
    if disk.files.lookup names != some content then
      IO.FS.writeBinFile ("/" ++ "/".intercalate names) content
  let elapsed := Progress.elapsed ((← IO.monoNanosNow) - started)
  (← IO.getStdout).putStr outcome.output
  (← IO.getStderr).putStr (outcome.errors elapsed)
  return outcome.code.toUInt32

end Extractor.Program

def main (arguments : List String) : IO UInt32 := Extractor.Program.run arguments
