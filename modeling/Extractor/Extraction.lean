import Extractor.Store
/-!
# What a document gives

The records of a document, the remarks about it, and whether the emitted code would report
success. A remark alone is no failure.
-/

namespace Extractor

structure Extraction where
  ok : Bool
  records : List Store
  diagnostics : List String
  deriving DecidableEq, Repr, Inhabited

namespace Extraction

def empty : Extraction := ⟨true, [], []⟩

/-- A document that gives nothing but a remark. -/
def failure (diagnostic : String) : Extraction := ⟨false, [], [diagnostic]⟩

/-- The same with more remarks at the end. -/
def remark (e : Extraction) (diagnostics : List String) : Extraction :=
  { e with diagnostics := e.diagnostics ++ diagnostics }

end Extraction

end Extractor
