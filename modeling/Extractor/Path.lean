import Extractor.Text.Lines
/-!
# Paths of files

Paths are texts whose parts are separated by slashes. Empty parts and single dots mean nothing,
except at the start. `output?` names the file that the code of a specification is written to.
-/

namespace Extractor.Path

/-- The parts without those at the end that mean nothing; the first part stays. -/
def dropIdleEnd : List String → List String
  | [] => []
  | first :: rest => first :: (rest.reverse.dropWhile fun part => part = "" || part = ".").reverse

/-- The name that a path ends with, and the parts before it. -/
def split? (path : String) : Option (List String × String) :=
  let parts := dropIdleEnd (Text.pieces '/' path)
  match parts.getLast? with
  | none => none
  | some name =>
    if name = "" ∨ name = "." ∨ name = ".." then none else some (dropIdleEnd parts.dropLast, name)

def fileName? (path : String) : Option String := (split? path).map (·.2)

/-- How the names of specifications end. -/
def specificationEnd : String := "-parser.in.cpp"

/-- How the names of files with emitted code end. -/
def outputEnd : String := "-parser.generated.cpp"

/-- The file beside a specification that its code is written to. -/
def output? (path : String) : Option String :=
  match split? path with
  | none => none
  | some (parents, name) =>
    (specificationEnd.toList.isSuffixOf? name.toList).map fun stem =>
      "/".intercalate (parents ++ [String.ofList stem ++ outputEnd])

/-- The order of paths by their parts, each part by its code points. -/
def precedes : List String → List String → Bool
  | [], _ => true
  | _ :: _, [] => false
  | a :: as, b :: bs => a < b || (a == b && precedes as bs)

/-- A path below a directory. -/
def below (directory : String) (parts : List String) : String :=
  directory ++ (if ['/'].isSuffixOf directory.toList then "" else "/") ++ "/".intercalate parts

/-- The path of the folder that holds what lies below a directory. -/
def folderBelow (directory : String) (parts : List String) : String :=
  if parts.dropLast.isEmpty then directory else below directory parts.dropLast

end Extractor.Path
