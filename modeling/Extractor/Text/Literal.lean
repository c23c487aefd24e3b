/-!
# String literals of the emitted code

Inside a literal the backslash and the quote are written with a backslash before them, a line
break as `\n` and a tab as `\t`; every other character stands for itself.
-/

namespace Extractor.Text

def escapeChar : Char → List Char
  | '\\' => ['\\', '\\']
  | '"' => ['\\', '"']
  | '\n' => ['\\', 'n']
  | '\t' => ['\\', 't']
  | c => [c]

def escape (s : String) : String := String.ofList (s.toList.flatMap escapeChar)

@[simp] theorem toList_escape (s : String) : (escape s).toList = s.toList.flatMap escapeChar := by
  simp [escape]

/-- The expression for a text that is given letter by letter. -/
def literalOf (inner : String) : String := "QStringLiteral(\"" ++ inner ++ "\")"

end Extractor.Text
