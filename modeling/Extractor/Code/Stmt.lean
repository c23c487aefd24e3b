import Extractor.Text.Blank
import Extractor.Text.Lines
/-!
# Statements of emitted code

Statements are trees; `Stmt.lines` lays them out as lines without indentation. A guard is always
one line, since the statement that it guards is recognised by the line before it.
-/

namespace Extractor

inductive Stmt where
  /-- Code as written, on one line or several. -/
  | code (text : String)
  /-- A head and a body in braces. -/
  | block (head : String) (body : List Stmt)
  /-- Conditions with their bodies, and the body for when none holds. -/
  | choice (arms : List (String × List Stmt)) (otherwise : Option (List Stmt))
  /-- A guard without braces and its statement. -/
  | guarded (guard statement : String)
  | comment (text : String)
  | blank
  deriving Repr, Inhabited

namespace Stmt

def ifThen (condition : String) (body : List Stmt) : Stmt := .choice [(condition, body)] none

def ifElse (condition : String) (body otherwise : List Stmt) : Stmt :=
  .choice [(condition, body)] (some otherwise)

/-- One statement without braces under a condition. -/
def onlyIf (condition statement : String) : Stmt :=
  .guarded ("if (" ++ condition ++ ")") statement

/-- The lines of a code text, without the white space around them. -/
def codeLines (text : String) : List String := (Text.pieces '\n' text).map Text.trim

/-- The lines that are not blank, on one line. -/
def oneLine (text : String) : String := " ".intercalate ((codeLines text).filter (· ≠ ""))

/-- The line that opens an arm of a choice; an arm after another one closes that first. -/
def armHead (isFirst : Bool) (condition : String) : String :=
  (if isFirst then "if (" else "\x7d else if (") ++ condition ++ ") \x7b"

mutual

def lines : Stmt → List String
  | .code text => codeLines text
  | .block head body => (head ++ " \x7b") :: linesOf body ++ ["\x7d"]
  | .choice arms otherwise =>
    armLines true arms ++
      (match otherwise with
        | none => []
        | some body => "\x7d else \x7b" :: linesOf body) ++
      ["\x7d"]
  | .guarded guard statement => oneLine guard :: codeLines statement
  | .comment text => ["// " ++ text]
  | .blank => [""]

def linesOf : List Stmt → List String
  | [] => []
  | stmt :: rest => stmt.lines ++ linesOf rest

def armLines (isFirst : Bool) : List (String × List Stmt) → List String
  | [] => []
  | (condition, body) :: rest =>
    armHead isFirst condition :: linesOf body ++ armLines false rest

end

theorem linesOf_append (s t : List Stmt) : linesOf (s ++ t) = linesOf s ++ linesOf t := by
  induction s with
  | nil => rfl
  | cons stmt s ih => simp [linesOf, ih]

end Stmt

end Extractor
