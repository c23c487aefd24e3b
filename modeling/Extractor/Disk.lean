import Extractor.Path
/-!
# Files on a disk

A disk is a working directory and the files and folders that matter, each given by the names on
the way from the root. Every folder on the way to a file exists. Paths and names have a greatest
length, and no path holds a null character.
-/

namespace Extractor

structure Disk where
  workingDirectory : List String
  files : List (List String × ByteArray)
  folders : List (List String)

namespace Disk

/-- Why a file cannot be read or written. -/
inductive Cause where
  | notFound
  | notFolder
  | isFolder
  | notText
  | tooLong
  | nullCharacter
  deriving DecidableEq, Repr

def Cause.message : Cause → String
  | .notFound => "No such file or directory (os error 2)"
  | .notFolder => "Not a directory (os error 20)"
  | .isFolder => "Is a directory (os error 21)"
  | .notText => "stream did not contain valid UTF-8"
  | .tooLong => "File name too long (os error 36)"
  | .nullCharacter => "file name contained an unexpected NUL byte"

/-- Most bytes of the name of a file or folder. -/
def maxNameSize : Nat := 255

/-- Most bytes of a path. -/
def maxPathSize : Nat := 4095

inductive Item where
  | file (content : ByteArray)
  | folder
  | nothing

/-- Some file or folder lies at the place or below it. -/
def isFolder (d : Disk) (place : List String) : Bool :=
  place.isPrefixOf d.workingDirectory || d.folders.any (place.isPrefixOf ·) ||
    d.files.any fun (names, _) => place.isPrefixOf names

def itemAt (d : Disk) (place : List String) : Item :=
  match d.files.lookup place with
  | some content => .file content
  | none => if d.isFolder place then .folder else .nothing

/-- Follows the parts of a path from a place on. A part can only be looked up in a folder. -/
def follow (d : Disk) (place : List String) : List String → Except Cause (List String)
  | [] => .ok place
  | part :: rest =>
    match d.itemAt place with
    | .nothing => .error .notFound
    | .file _ => .error .notFolder
    | .folder =>
      if part = "" ∨ part = "." then d.follow place rest
      else if part = ".." then d.follow place.dropLast rest
      else if maxNameSize < part.utf8ByteSize then .error .tooLong
      else d.follow (place ++ [part]) rest

/-- The place that a path leads to. -/
def locate (d : Disk) (path : String) : Except Cause (List String) :=
  if path.toList.contains '\x00' then .error .nullCharacter
  else if path = "" then .error .notFound
  else if maxPathSize < path.utf8ByteSize then .error .tooLong
  else
    let parts := Text.pieces '/' path
    if parts.head? = some "" then d.follow [] parts.tail
    else d.follow d.workingDirectory parts

def item (d : Disk) (path : String) : Item :=
  match d.locate path with
  | .ok place => d.itemAt place
  | .error _ => .nothing

def read (d : Disk) (path : String) : Except Cause String := do
  match d.itemAt (← d.locate path) with
  | .file content =>
    match String.fromUTF8? content with
    | some text => return text
    | none => throw .notText
  | .folder => throw .isFolder
  | .nothing => throw .notFound

/-- Puts content at a place, in the stead of what a file there held. -/
def put (place : List String) (content : ByteArray) :
    List (List String × ByteArray) → List (List String × ByteArray)
  | [] => [(place, content)]
  | (names, old) :: rest =>
    if names = place then (names, content) :: rest else (names, old) :: put place content rest

def write (d : Disk) (path text : String) : Except Cause Disk := do
  let place ← d.locate path
  match d.itemAt place with
  | .folder => throw .isFolder
  | _ => return { d with files := put place text.toUTF8 d.files }

/-- The files below the folder that a path leads to, by their names from there on. Each folder is
opened by its whole path; what lies in one whose path is too long is passed over. -/
def filesBelow (d : Disk) (path : String) : List (List String) :=
  match d.locate path with
  | .ok place =>
    (d.files.filterMap fun (names, _) => place.isPrefixOf? names).filter fun parts =>
      (Path.folderBelow path parts).utf8ByteSize ≤ maxPathSize
  | .error _ => []

end Disk

end Extractor
