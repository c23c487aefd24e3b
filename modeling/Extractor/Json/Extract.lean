import Extractor.Decimal.SixDigits
import Extractor.Extraction
import Extractor.Json.Reader
import Extractor.Text.Numeral
/-!
# The records of a JSON document

Every string, number and truth value of a document is a leaf, under the names and indices that
lead to it. The leaves of the document are gathered in one store, level by level; the records are
the parts of it below the items of the array at the path, up to the first item without leaves.
-/

namespace Extractor.Json

namespace Value

mutual

/-- Number of values in a value, itself included. -/
def weight : Value → Nat
  | .array items => itemsWeight items + 1
  | .object members => membersWeight members + 1
  | _ => 1

def itemsWeight : List Value → Nat
  | [] => 0
  | item :: rest => item.weight + itemsWeight rest

def membersWeight : List (String × Value) → Nat
  | [] => 0
  | (_, value) :: rest => value.weight + membersWeight rest

end

/-- The text of a leaf. -/
def leafText? : Value → Option String
  | .string text => some text
  | .number bits => some (Decimal.text bits)
  | .bool true => some "true"
  | .bool false => some "false"
  | _ => none

/-- Items with their indices, from the given one on. -/
def indexed (index : Nat) : List Value → List (String × Value)
  | [] => []
  | item :: rest => (toString index, item) :: indexed (index + 1) rest

/-- The values directly inside a value, each with its name or index. -/
def children : Value → List (String × Value)
  | .array items => indexed 0 items
  | .object members => members
  | _ => []

theorem membersWeight_indexed (index : Nat) (items : List Value) :
    membersWeight (indexed index items) = itemsWeight items := by
  induction items generalizing index with
  | nil => rfl
  | cons item rest ih => simp [indexed, membersWeight, itemsWeight, ih]

theorem weight_eq (v : Value) : v.weight = membersWeight v.children + 1 := by
  cases v <;> simp [weight, children, membersWeight, membersWeight_indexed]

end Value

/-- A value with the names and indices that lead to it. -/
structure Node where
  path : List String
  value : Value
  deriving Repr, Inhabited

namespace Node

def children (n : Node) : List Node :=
  n.value.children.map fun (name, value) => ⟨n.path ++ [name], value⟩

def leaf? (n : Node) : Option (String × String) :=
  n.value.leafText?.map ("/".intercalate n.path, ·)

/-- Number of values in some nodes. -/
def totalWeight : List Node → Nat
  | [] => 0
  | n :: rest => n.value.weight + totalWeight rest

theorem totalWeight_append (nodes others : List Node) :
    totalWeight (nodes ++ others) = totalWeight nodes + totalWeight others := by
  induction nodes with
  | nil => simp [totalWeight]
  | cons n rest ih => simp [totalWeight, ih, Nat.add_assoc]

theorem totalWeight_children (n : Node) : totalWeight n.children + 1 = n.value.weight := by
  have h : ∀ members : List (String × Value),
      totalWeight (members.map fun (name, value) => ⟨n.path ++ [name], value⟩) =
        Value.membersWeight members := by
    intro members
    induction members with
    | nil => rfl
    | cons m rest ih => rw [List.map_cons, totalWeight, ih, Value.membersWeight]
  rw [Value.weight_eq, children, h]

theorem totalWeight_flatMap_children (nodes : List Node) :
    totalWeight (nodes.flatMap children) + nodes.length = totalWeight nodes := by
  induction nodes with
  | nil => rfl
  | cons n rest ih =>
    have h := totalWeight_children n
    rw [List.flatMap_cons, totalWeight_append, totalWeight, List.length_cons]
    omega

/-- The leaves in some nodes of one level, with their joined paths, and then those of the levels
below. -/
def leaves (level : List Node) : List (String × String) :=
  match level with
  | [] => []
  | n :: rest => (n :: rest).filterMap leaf? ++ leaves ((n :: rest).flatMap children)
termination_by totalWeight level
decreasing_by
  have := totalWeight_flatMap_children (n :: rest)
  simp only [List.length_cons] at this
  omega

end Node

namespace Value

/-- The leaves of a document under their joined paths. -/
def gather (root : Value) : Store := Store.ofList (Node.leaves [⟨[], root⟩])

/-- The item or member that a segment of a path leads to. -/
def child? (segment : String) : Value → Option Value
  | .array items => (Text.word? segment).bind (items[·]?)
  | .object members => members.lookup segment
  | _ => none

/-- The value that a path leads to. -/
def at? (v : Value) : List String → Option Value
  | [] => some v
  | segment :: path => (v.child? segment).bind (at? · path)

/-- The number of items of the array at a path. -/
def countAt (v : Value) (path : List String) : Nat :=
  match v.at? path with
  | some (.array items) => items.length
  | _ => 0

/-- A decimal number without needless zeros. -/
def isIndex : List Char → Bool
  | [] => false
  | ['0'] => true
  | c :: rest => c != '0' && (c :: rest).all Char.isDigit

/-- Drops an index that ends a path. -/
def dropIndex : List Char → List Char
  | [] => []
  | c :: rest => if c = '/' ∧ isIndex rest then [] else c :: dropIndex rest

/-- Takes what lies below a path out of a store. -/
def cut (gathered : Store) (stem : String) : Store :=
  gathered.toList.foldl (fun s (path, values) =>
    match stem.toList.isPrefixOf? path.toList with
    | some rest => s.appendAll (String.ofList (dropIndex rest)) values
    | none => s) Store.empty

/-- The records of a document that is an object. -/
def records (root : Value) (path : List String) (maxRecords : Nat) : List Store :=
  let gathered := root.gather
  let record (n : Nat) := cut gathered ("/".intercalate path ++ "/" ++ toString n ++ "/")
  ((List.range (min (root.countAt path) maxRecords)).map record).takeWhile (!·.isEmpty)

/-- The records at a path, at most so many. -/
def extract (root : Value) (path : List String) (maxRecords : Nat) : Extraction :=
  if root.isObject then ⟨true, root.records path maxRecords, []⟩
  else .failure "JSON document is not an object"

end Value

/-- The records of a document at a path, at most so many. -/
def extract (document : String) (path : List String) (maxRecords : Nat) : Extraction :=
  match Value.read document with
  | .ok root => root.extract path maxRecords
  | .error message => .failure ("Problem with JSON data: " ++ message)

end Extractor.Json
