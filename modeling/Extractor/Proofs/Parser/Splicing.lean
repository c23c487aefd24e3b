import Extractor.Parser.Emit
/-!
# Where the code of an entry stands

Both bodies are built around the code of the entry. A construction that only puts lines before and
behind what it is given is a `Splice`; splices compose, so the body for a path of any length is one
(`Xml.splice_body`, `Json.splice_body`), and the code of the entry stands in it as one piece, between
lines that the entry has no influence on (`linesOf_bodyFor`).
-/

namespace Extractor

namespace Stmt

/-- The lines of what is built are those of the part it is built around, between lines that do not
depend on this part. -/
def Splice (around : List Stmt → List Stmt) : Prop :=
  ∃ before after, ∀ inner, linesOf (around inner) = before ++ linesOf inner ++ after

namespace Splice

variable {around : List Stmt → List Stmt}

theorem refl : Splice fun inner => inner := ⟨[], [], fun inner => by simp⟩

theorem prepend (h : Splice around) (first : List Stmt) :
    Splice fun inner => first ++ around inner := by
  obtain ⟨before, after, h⟩ := h
  refine ⟨linesOf first ++ before, after, fun inner => ?_⟩
  rw [linesOf_append, h]
  simp only [List.append_assoc]

theorem append (h : Splice around) (last : List Stmt) :
    Splice fun inner => around inner ++ last := by
  obtain ⟨before, after, h⟩ := h
  refine ⟨before, after ++ linesOf last, fun inner => ?_⟩
  rw [linesOf_append, h, List.append_assoc _ after]

theorem block (h : Splice around) (head : String) :
    Splice fun inner => [.block head (around inner)] := by
  obtain ⟨before, after, h⟩ := h
  refine ⟨(head ++ " \x7b") :: before, after ++ ["\x7d"], fun inner => ?_⟩
  rw [linesOf, linesOf, lines, h]
  simp only [List.cons_append, List.append_assoc, List.append_nil]

theorem ifThen (h : Splice around) (condition : String) :
    Splice fun inner => [Stmt.ifThen condition (around inner)] := by
  obtain ⟨before, after, h⟩ := h
  refine ⟨armHead true condition :: before, after ++ ["\x7d"], fun inner => ?_⟩
  rw [linesOf, linesOf, Stmt.ifThen, lines, armLines, armLines, h]
  simp only [List.cons_append, List.append_assoc, List.append_nil]

/-- The part stands in the first arm. -/
theorem ifElse (h : Splice around) (condition : String) (otherwise : List Stmt) :
    Splice fun inner => [Stmt.ifElse condition (around inner) otherwise] := by
  obtain ⟨before, after, h⟩ := h
  refine ⟨armHead true condition :: before,
    after ++ "\x7d else \x7b" :: linesOf otherwise ++ ["\x7d"], fun inner => ?_⟩
  rw [linesOf, linesOf, Stmt.ifElse, lines, armLines, armLines, h]
  simp only [List.cons_append, List.append_assoc, List.append_nil]

end Splice

end Stmt

namespace Parser

open Stmt

namespace Xml

theorem splice_record (name : String) (o : Options) : Splice fun entry => record name entry o :=
  Splice.refl.prepend _

theorem splice_forEach {around : List Stmt → List Stmt} (h : Splice around) (name : String) :
    Splice fun entry => [forEach name (around entry)] :=
  (h.ifThen _).block _

/-- Each name of the path puts one more loop around the code of the entry. -/
theorem splice_scan (o : Options) (path : List String) (parent : String) (index : Nat) :
    Splice fun entry => scan parent index entry o path := by
  induction path generalizing parent index with
  | nil => exact splice_record parent o
  | cons segment rest ih =>
    cases rest with
    | nil => exact (splice_forEach (splice_record segment o) segment).append [invalidCheck o]
    | cons next rest =>
      have hfound := (ih segment (index + 1)).prepend [.code (foundFlag index ++ " = true;")]
      have hloop := (splice_forEach hfound segment).append
        [invalidCheck o, .ifThen ("!" ++ foundFlag index) (missing segment parent o)]
      exact hloop.prepend [.code ("bool " ++ foundFlag index ++ " = false;")]

theorem splice_body (o : Options) (root : String) (rest : List String) :
    Splice fun entry => body entry o (root :: rest) :=
  (((splice_scan o rest root 1).ifElse _ _).ifElse _ _).prepend
    [.code "*ok = true;", .code "QXmlStreamReader xsr(xmlData);"]

end Xml

namespace Json

theorem splice_records (entries : String) (o : Options) :
    Splice fun entry => records entries entry o :=
  ((Splice.refl.prepend (recordMap entries)).block _).prepend [_, _, _, _]

theorem splice_body (o : Options) (entries : String) : Splice fun entry => body entry o entries := by
  have hdocument := ((splice_records (Text.escape entries) o).prepend
    (gatherLeaves ++ [.blank])).append [.code "*ok = true;"]
  simp only [List.append_assoc, List.singleton_append] at hdocument
  exact ((hdocument.ifElse _ _).ifElse _ _).prepend [_, _]

end Json

/-- **The code of an entry stands in the body once, in one piece.** The lines before and behind it
hang on the format, the path to the records and the options alone. -/
theorem linesOf_bodyFor (format : Format) {path : List String} (hpath : path ≠ []) (o : Options) :
    ∃ before after, ∀ spec : Specification, spec.entriesPath = path →
      linesOf (bodyFor format spec o) = before ++ linesOf (assembleEntry spec) ++ after := by
  obtain ⟨root, rest, rfl⟩ := List.exists_cons_of_ne_nil hpath
  cases format with
  | xml =>
    obtain ⟨before, after, h⟩ := Xml.splice_body o root rest
    refine ⟨before, after, fun spec hspec => ?_⟩
    rw [bodyFor, hspec, h]
  | json =>
    obtain ⟨before, after, h⟩ := Json.splice_body o ("/".intercalate (root :: rest))
    refine ⟨before, after, fun spec hspec => ?_⟩
    rw [bodyFor, Specification.entries, hspec, h]

/-- Three names put two loops and the loop over the content of the record around the entry. -/
theorem linesOf_bodyFor_nested :
    ["feed", "group", "entry"] ≠ [] ∧
      ∃ before after, ∀ spec : Specification, spec.entriesPath = ["feed", "group", "entry"] →
        linesOf (bodyFor .xml spec {}) =
          before ++ linesOf (assembleEntry spec) ++ after :=
  ⟨by decide, linesOf_bodyFor .xml (by decide) _⟩

end Parser

end Extractor
