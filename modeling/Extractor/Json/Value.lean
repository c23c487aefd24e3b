/-!
# JSON values

Numbers are binary64 values, given by their bits. The members of an object are ascending in the
code points of their names, and each name occurs once.
-/

namespace Extractor.Json

inductive Value where
  | null
  | bool (value : Bool)
  | number (bits : UInt64)
  | string (text : String)
  | array (items : List Value)
  | object (members : List (String × Value))
  deriving Repr, Inhabited

namespace Value

/-- Sets a member; a name that is there already gets the new value. -/
def insertMember (name : String) (value : Value) :
    List (String × Value) → List (String × Value)
  | [] => [(name, value)]
  | (n, v) :: rest =>
    if name < n then (name, value) :: (n, v) :: rest
    else if name = n then (name, value) :: rest
    else (n, v) :: insertMember name value rest

def isObject : Value → Bool
  | .object _ => true
  | _ => false

end Value

end Extractor.Json
