import Extractor.Code.Layout
/-!
# Printing statements by their nesting

`rowsOf` lists the lines of statements and the depth of each, which is read off the trees alone.
Statements are regular when none of their own lines looks as if it nested others (`Regular`).
-/

namespace Extractor

namespace Layout

/-- Code that leaves the depth as it is. -/
structure Plain (line : List Char) : Prop where
  closes : closesBlock line = false
  opens : opensBlock line = false
  guard : isOpenGuard line = false

/-- A guard that does not also close a block. -/
structure OpenGuard (line : List Char) : Prop where
  closes : closesBlock line = false
  guard : isOpenGuard line = true

instance (line : List Char) : Decidable (Plain line) :=
  decidable_of_iff (closesBlock line = false ∧ opensBlock line = false ∧ isOpenGuard line = false)
    ⟨fun h => ⟨h.1, h.2.1, h.2.2⟩, fun h => ⟨h.1, h.2, h.3⟩⟩

instance (line : List Char) : Decidable (OpenGuard line) :=
  decidable_of_iff (closesBlock line = false ∧ isOpenGuard line = true)
    ⟨fun h => ⟨h.1, h.2⟩, fun h => ⟨h.1, h.2⟩⟩

/-- A line, trimmed, and the depth where it belongs. -/
def row (depth : Nat) (line : String) : Nat × List Char := (depth, Text.trimChars line.toList)

/-- Each line at its depth. -/
def printed (unit : Nat) (rows : List (Nat × List Char)) : String :=
  String.ofList (rows.flatMap fun (depth, line) => indentLine unit depth line ++ ['\n'])

end Layout

namespace Stmt

open Layout

mutual

/-- A body is one deeper than the lines around it, and the statement of a guard one deeper than
the guard. -/
def rows (depth : Nat) : Stmt → List (Nat × List Char)
  | .code text => (codeLines text).map (row depth)
  | .block head body =>
    row depth (head ++ " \x7b") :: rowsOf (depth + 1) body ++ [row depth "\x7d"]
  | .choice arms otherwise =>
    armRows depth true arms ++
      (match otherwise with
        | none => []
        | some body => row depth "\x7d else \x7b" :: rowsOf (depth + 1) body) ++
      [row depth "\x7d"]
  | .guarded guard statement =>
    row depth (oneLine guard) :: (codeLines statement).map (row (depth + 1))
  | .comment text => [row depth ("// " ++ text)]
  | .blank => [row depth ""]

def rowsOf (depth : Nat) : List Stmt → List (Nat × List Char)
  | [] => []
  | stmt :: rest => stmt.rows depth ++ rowsOf depth rest

def armRows (depth : Nat) (isFirst : Bool) : List (String × List Stmt) → List (Nat × List Char)
  | [] => []
  | (condition, body) :: rest =>
    row depth (armHead isFirst condition) :: rowsOf (depth + 1) body ++ armRows depth false rest

end

/-- One line of code, which a guard can stand before. -/
def SingleLine (text : String) : Prop :=
  ∃ line, codeLines text = [line] ∧ line ≠ "" ∧ isComment line.toList = false ∧ Plain line.toList

mutual

/-- What stands for a nesting in the lines of the statement is a nesting in its tree. -/
def Regular : Stmt → Prop
  | .code text => ∀ line ∈ codeLines text, Plain line.toList
  | .block head body => closesBlock (Text.trimChars head.toList) = false ∧ RegularAll body
  | .choice arms otherwise =>
    arms ≠ [] ∧ RegularArms arms ∧
      match otherwise with
      | none => True
      | some body => RegularAll body
  | .guarded guard statement => OpenGuard (oneLine guard).toList ∧ SingleLine statement
  | .comment text => opensBlock (Text.trimChars ("// " ++ text).toList) = false
  | .blank => True

def RegularAll : List Stmt → Prop
  | [] => True
  | stmt :: rest => stmt.Regular ∧ RegularAll rest

def RegularArms : List (String × List Stmt) → Prop
  | [] => True
  | (_, body) :: rest => RegularAll body ∧ RegularArms rest

end

end Stmt

end Extractor
