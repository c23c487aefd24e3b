import Extractor.Proofs.Code.LineBreaks
import Extractor.Proofs.Json.Paths
import Extractor.Proofs.Parser.Function
import Extractor.Proofs.Text.Escaping

/-!
# No text of a specification breaks a line

The texts of a specification may have line breaks: templates, hooks and the validation by their
indented lines, but also names of the path and value classes. In the emitted code each of them stands
in code or in a guard, which are cut or joined, or is escaped. Only the names of the specification
and of the function are lines as they are, so without breaks in these every line of the code has its
own row (`code_rows`).
-/

namespace Extractor

open Text

namespace Text

theorem unbroken_toString (n : Nat) : Unbroken (toString n) := fun hbreak =>
  absurd (Json.isDigit_of_mem_toString hbreak) (by decide)

/-- No break is left in an escaped text. -/
theorem unbroken_literalOf_escape (text : String) : Unbroken (literalOf (escape text)) := by
  refine .insert (by decide) ?_
  rw [Unbroken, toList_escape]
  exact (not_mem_escape text.toList).1

end Text

namespace Parser

open Stmt

section

variable {o : Options} {entry found : List Stmt}

/-! ## The body for XML -/

namespace Xml

theorem unbroken_isNamed (name : String) : Unbroken (isNamed name) :=
  .append (by decide) (unbroken_literalOf_escape name)

theorem unbroken_forEach (name : String) (h : allUnbroken found) : (forEach name found).unbroken := by
  have hnamed : Unbroken ("xsr.isStartElement() && " ++ isNamed name) :=
    .append (by decide) (unbroken_isNamed name)
  exact unbroken_block (by decide) (allUnbroken_cons (unbroken_ifThen hnamed h) rfl)

theorem allUnbroken_record (name : String) (hentry : allUnbroken entry) :
    allUnbroken (record name entry o) := by
  have hloop : Unbroken ("while (" ++ readsNext ++
      " && !(xsr.isEndElement() && stack.isEmpty() && " ++ isNamed name ++ "))") :=
    .insert (by decide +kernel) (unbroken_isNamed name)
  have hgathers := unbroken_block hloop (by decide : allUnbroken [.choice [
    ("xsr.isStartElement()", onStart), ("xsr.isEndElement()", onEnd),
    ("xsr.isCharacters() && !xsr.isWhitespace()", onCharacters)] none])
  rw [record, allUnbroken_append_iff]
  simp only [allUnbroken_cons_iff]
  exact ⟨⟨rfl, rfl, rfl, hgathers, rfl, rfl, rfl⟩, hentry⟩

/-- Each name of the path puts one more loop around the code of the entry. -/
theorem allUnbroken_scan (hentry : allUnbroken entry) (path : List String) (parent : String)
    (index : Nat) : allUnbroken (scan parent index entry o path) := by
  induction path generalizing parent index with
  | nil => exact allUnbroken_record parent hentry
  | cons segment rest ih =>
    cases rest with
    | nil =>
      have hloop := unbroken_forEach segment (allUnbroken_record (o := o) segment hentry)
      exact allUnbroken_cons hloop rfl
    | cons next rest =>
      have hloop := unbroken_forEach segment (allUnbroken_cons
        (rfl : (Stmt.code (foundFlag index ++ " = true;")).unbroken) (ih segment (index + 1)))
      have hnot : Unbroken ("!" ++ foundFlag index) :=
        .append (by decide) (.append (by decide) (unbroken_toString index))
      have hmissing : allUnbroken (missing segment parent o) := rfl
      rw [scan]
      simp only [allUnbroken_cons_iff]
      exact ⟨rfl, hloop, rfl, unbroken_ifThen hnot hmissing, rfl⟩

theorem allUnbroken_body (hentry : allUnbroken entry) (path : List String) :
    allUnbroken (body entry o path) := by
  cases path with
  | nil => rfl
  | cons root rest =>
    have hfails (message : String) : allUnbroken [.code (o.warning message), fail] := rfl
    have hscan : allUnbroken (scan root 1 entry o rest) := allUnbroken_scan hentry rest root 1
    rw [body]
    simp only [allUnbroken_cons_iff]
    refine ⟨rfl, rfl, unbroken_ifElse (by decide) (allUnbroken_cons ?_ rfl) (hfails _), rfl⟩
    exact unbroken_ifElse (unbroken_isNamed root) hscan (hfails _)

end Xml

/-! ## The body for JSON -/

namespace Json

theorem allUnbroken_records (entries : String) (hentry : allUnbroken entry) :
    allUnbroken (records entries entry o) := by
  have hloop : Unbroken ("for (int n = 0; n < entriesCount && n < " ++ toString o.maxRecords ++
      "; ++n)") := .insert (by decide) (unbroken_toString _)
  have hmap : allUnbroken (recordMap entries) := allUnbroken_cons rfl (by decide)
  rw [records]
  simp only [allUnbroken_cons_iff]
  exact ⟨rfl, rfl, rfl, rfl, unbroken_block hloop (allUnbroken_append_iff.2 ⟨hmap, hentry⟩), rfl⟩

theorem allUnbroken_body (entries : String) (hentry : allUnbroken entry) :
    allUnbroken (body entry o entries) := by
  have hgather : allUnbroken gatherLeaves := by decide
  have hrecords : allUnbroken (.blank :: records (Text.escape entries) entry o) :=
    allUnbroken_cons rfl (allUnbroken_records _ hentry)
  have hfails (message : String) : allUnbroken [.code (o.warning message), .code "*ok = false;"] :=
    rfl
  rw [body]
  simp only [allUnbroken_cons_iff]
  refine ⟨rfl, rfl, unbroken_ifElse (by decide) (allUnbroken_cons ?_ rfl) (hfails _), rfl⟩
  refine unbroken_ifElse (by decide) ?_ (hfails _)
  simp only [allUnbroken_append_iff]
  exact ⟨⟨hgather, hrecords⟩, rfl⟩

end Json

end

/-! ## The code of an entry -/

section

variable (spec : Specification) (o : Options)

/-- The code of an entry is cut or joined wherever it has a text of the specification. -/
theorem allUnbroken_assembleEntry : allUnbroken (assembleEntry spec) := by
  have hrules {f : Rule → List Stmt} (h : ∀ rule, allUnbroken (f rule)) (rules : List Rule) :
      allUnbroken (rules.flatMap f) := by
    rw [allUnbroken_iff]
    intro stmt hstmt
    obtain ⟨rule, -, hstmt⟩ := List.mem_flatMap.1 hstmt
    exact allUnbroken_iff.1 (h rule) stmt hstmt
  have hsetter (method template : String) : allUnbroken (setter method template) := by
    unfold setter
    split <;> rfl
  have happend : allUnbroken [appendStmt spec.validation] := by
    unfold appendStmt
    split
    · split <;> rfl
    · rfl
  have hfieldRules : allUnbroken (newEntry :: spec.fieldRules.flatMap (fieldStmts spec)) :=
    allUnbroken_cons rfl (hrules (fun _ => rfl) _)
  have hvalueRules : allUnbroken (spec.valueRules.flatMap valueStmts) := hrules (fun _ => rfl) _
  simp only [assembleEntry, allUnbroken_append_iff]
  refine ⟨⟨⟨⟨⟨⟨?mapping, hfieldRules⟩, hvalueRules⟩, ?fields⟩, hsetter _ _⟩, hsetter _ _⟩, happend⟩
  case mapping => cases spec.postMapping <;> rfl
  case fields => cases spec.postFields <;> rfl

/-! ## The whole code -/

theorem allUnbroken_content : allUnbroken (content spec o) := by
  have hentry := allUnbroken_assembleEntry spec
  rw [content, allUnbroken_append_iff]
  constructor
  · unfold introduction
    split <;> rfl
  · unfold bodyFor
    cases spec.format with
    | xml => exact Xml.allUnbroken_body hentry spec.entriesPath
    | json => exact Json.allUnbroken_body spec.entries hentry

variable {o}

theorem allUnbroken_stmts (hname : ∀ name ∈ o.functionName, Unbroken name) :
    allUnbroken (stmts spec o) := by
  have hcontent := allUnbroken_content spec o
  unfold stmts
  split
  · exact hcontent
  · next name hsome =>
    have hparameter : Unbroken spec.format.parameter := by cases spec.format <;> decide
    have hhead : Unbroken (functionHead name spec.format) :=
      ((Unbroken.insert (by decide) (hname name hsome)).append hparameter).append (by decide)
    refine allUnbroken_cons (unbroken_block hhead ?_) rfl
    rw [allUnbroken_append_iff]
    exact ⟨allUnbroken_cons rfl hcontent, rfl⟩

theorem unbroken_of_mem_page (hinput : Unbroken o.inputName)
    (hname : ∀ name ∈ o.functionName, Unbroken name) :
    ∀ line ∈ (page spec o).lines, Unbroken line := by
  have hsource : Unbroken ("using information from configuration file '" ++ o.inputName ++ "'") :=
    .insert (by decide) hinput
  have hbanner : allUnbroken (banner o) :=
    allUnbroken_cons (by decide) (allUnbroken_cons (decide_eq_true hsource) rfl)
  have hlines : (page spec o).lines = linesOf (banner o ++ stmts spec o) := by
    rw [linesOf_append]
    rfl
  rw [hlines]
  exact unbroken_of_mem_linesOf _
    (allUnbroken_append_iff.2 ⟨hbanner, allUnbroken_stmts spec hname⟩)

/-- **No text of a specification breaks a line of the code.** If the names of the specification and
of the function have no breaks, no line has one, and the code has exactly one row for each line, with
a margin of whole levels. -/
theorem code_rows (hinput : Unbroken o.inputName)
    (hname : ∀ name ∈ o.functionName, Unbroken name) :
    let rows := physicalLines (emit spec o).code
    (∀ line ∈ (page spec o).lines, Unbroken line) ∧ (emit spec o).code = unlines rows ∧
      rows.length = (page spec o).size ∧ ∀ row ∈ rows, Layout.Margined 4 row := by
  have hlines := unbroken_of_mem_page spec hinput hname
  exact ⟨hlines, Layout.rows_indent 4 o.depth hlines⟩

end

/-- A name of the path, a template, a value class, the validation, a hook and the log category, each
on two lines. -/
theorem code_rows_scattered :
    let source := "format: json\nentries: a\n  b / c\nfield[x]: f(\n  \x7b\x7by\x7d\x7d)\n" ++
      "valueItemType[x]: A\n  B\nentryvalidation: ok &&\n  go\npostprocessingmapping: if (m)\n  n();"
    let o : Options := { functionName := some "parse", logCategory := "LOG_\n TWO" }
    ∃ spec, Specification.load source = .ok spec ∧ spec.entriesPath = ["a\nb", "c"] ∧
      Unbroken o.inputName ∧ (∀ name ∈ o.functionName, Unbroken name) ∧
      let rows := physicalLines (emit spec o).code
      (∀ line ∈ (page spec o).lines, Unbroken line) ∧ (emit spec o).code = unlines rows ∧
        rows.length = (page spec o).size ∧ ∀ row ∈ rows, Layout.Margined 4 row := by
  intro source o
  have hload : Specification.load source = .ok
      { format := .json, entriesPath := ["a\nb", "c"], introduction := none
        fieldRules := [⟨.symbol "x", "f(\n\x7b\x7by\x7d\x7d)"⟩]
        valueRules := [], typeOverrides := [(.symbol "x", .other "A\nB")]
        entryId := "", entryType := "", validation := some "ok &&\ngo"
        postMapping := some "if (m)\nn();", postFields := none } := by
    decide +kernel
  have hinput : Unbroken o.inputName := by decide
  have hname : ∀ name ∈ o.functionName, Unbroken name := by decide
  exact ⟨_, hload, rfl, hinput, hname, code_rows _ hinput hname⟩

end Parser

end Extractor
