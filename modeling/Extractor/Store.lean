/-!
# Values by path

The values of one record, each list under the path of the places that it was found at. Paths are
kept in ascending order of their code points, values in the order in which they were appended.
-/

namespace Extractor

structure Store where
  toList : List (String × List String)
  deriving DecidableEq, Repr, Inhabited

namespace Store

def empty : Store := ⟨[]⟩

def insertValue (path value : String) : List (String × List String) → List (String × List String)
  | [] => [(path, [value])]
  | (p, values) :: rest =>
    if path < p then (path, [value]) :: (p, values) :: rest
    else if path = p then (p, values ++ [value]) :: rest
    else (p, values) :: insertValue path value rest

def append (s : Store) (path value : String) : Store := ⟨insertValue path value s.toList⟩

def appendAll (s : Store) (path : String) (values : List String) : Store :=
  values.foldl (fun s value => s.append path value) s

/-- The store of these path and value pairs, appended in order. -/
def ofList (pairs : List (String × String)) : Store :=
  pairs.foldl (fun s (path, value) => s.append path value) empty

/-- The values at a path, none when it was never seen. -/
def get (s : Store) (path : String) : List String := (s.toList.lookup path).getD []

/-- The values at a path, joined by line breaks. -/
def join (s : Store) (path : String) : String := "\n".intercalate (s.get path)

/-- Number of distinct paths. -/
def size (s : Store) : Nat := s.toList.length

def isEmpty (s : Store) : Bool := s.toList.isEmpty

end Store

end Extractor
