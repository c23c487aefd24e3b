/-!
# White space

`isBlank` holds of the characters with the Unicode property White_Space. `trim` and `trimEnd`
remove them from the ends of a text; both are given on lists of characters first.
-/

namespace Extractor.Text

/-- Characters with the Unicode property White_Space. -/
def isBlank (c : Char) : Bool :=
  let n := c.toNat
  (9 ≤ n && n ≤ 13) || n == 0x20 || n == 0x85 || n == 0xA0 || n == 0x1680 ||
    (0x2000 ≤ n && n ≤ 0x200A) || n == 0x2028 || n == 0x2029 || n == 0x202F ||
    n == 0x205F || n == 0x3000

theorem isBlank_of_isWhitespace {c : Char} (h : c.isWhitespace = true) : isBlank c = true := by
  simp only [Char.isWhitespace, Bool.or_eq_true, decide_eq_true_eq, or_assoc] at h
  rcases h with h | h | h | h <;> subst h <;> decide

/-- The characters up to the last one that is not blank. -/
def dropBlankEnd : List Char → List Char
  | [] => []
  | c :: r =>
    match dropBlankEnd r with
    | [] => if isBlank c then [] else [c]
    | d :: t => c :: d :: t

/-- The characters between the first and the last one that is not blank. -/
def trimChars (s : List Char) : List Char := dropBlankEnd (s.dropWhile isBlank)

def trimEnd (s : String) : String := String.ofList (dropBlankEnd s.toList)

def trim (s : String) : String := String.ofList (trimChars s.toList)

@[simp] theorem toList_trimEnd (s : String) : (trimEnd s).toList = dropBlankEnd s.toList := by
  simp [trimEnd]

@[simp] theorem toList_trim (s : String) : (trim s).toList = trimChars s.toList := by
  simp [trim]

/-- Nothing but white space. -/
def isBlankText (s : String) : Bool := s.toList.all isBlank

end Extractor.Text
