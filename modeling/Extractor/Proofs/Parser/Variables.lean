import Extractor.Parser.Emit
import Extractor.Proofs.Parser.Declarations
import Extractor.Proofs.Preview.Lookup
/-!
# Variables of the emitted code and of the preview

Emitted code and a preview follow the same rules: each variable that is reported with the code
belongs to the text that the preview renders at its place, and the code declares the variables in
this order, each with the insertion of its value behind it (`declared_agrees`).
-/

namespace Extractor.Parser

open Preview (map_key_renderRules)

namespace Variable

/-- The type that the code declares the variable with. -/
def type (v : Variable) : String :=
  match v.kind with
  | .field => "QString"
  | .value => "Value"

/-- What is inserted for the variable: its text as a value of its class, or the value itself. -/
def inserted (v : Variable) : String :=
  match v.valueClass with
  | some name => "Value() << QSharedPointer<" ++ name ++ ">(new " ++ name ++ "(" ++ v.name ++ "))"
  | none => v.name

end Variable

/-- The statements of a rule declare the variable, and right behind it insert it under the key of the
rule, unless it is empty. -/
inductive Assigns (rule : Rule) (v : Variable) : List Stmt → Prop
  | mk (rest : String) :
    Assigns rule v [
      .code ("const " ++ v.type ++ " " ++ v.name ++ " " ++ rest),
      .onlyIf ("!" ++ v.name ++ ".isEmpty()")
        ("entry->insert(" ++ rule.key.expression ++ ", " ++ v.inserted ++ ");")]

theorem assigns_fieldStmts (spec : Specification) (rule : Rule) :
    Assigns rule (fieldVariable spec rule) (fieldStmts spec rule) := by
  obtain ⟨rest, hstmts⟩ := fieldStmts_eq spec rule
  have htype : "const QString " = "const " ++ "QString" ++ " " := by decide
  rw [hstmts, htype]
  exact .mk rest

theorem assigns_valueStmts (rule : Rule) : Assigns rule (valueVariable rule) (valueStmts rule) := by
  obtain ⟨rest, hstmts⟩ := valueStmts_eq rule
  have htype : "const Value " = "const " ++ "Value" ++ " " := by decide
  rw [hstmts, htype]
  exact .mk rest

/-- The statements of each rule. -/
def blocks (spec : Specification) : List (List Stmt) :=
  spec.fieldRules.map (fieldStmts spec) ++ spec.valueRules.map valueStmts

theorem assigns_blocks (spec : Specification) :
    List.Forall₂ (fun pair block => Assigns pair.1 pair.2 block)
      (spec.rules.zip (declared spec)) (blocks spec) := by
  have hzip (rules : List Rule) (variableOf : Rule → Variable) :
      rules.zip (rules.map variableOf) = rules.map fun rule => (rule, variableOf rule) := by
    rw [← List.zip_map', List.map_id']
  have hlength : spec.fieldRules.length = (spec.fieldRules.map (fieldVariable spec)).length :=
    (List.length_map _).symm
  rw [Specification.rules, declared, List.zip_append hlength, hzip, hzip, blocks]
  refine List.rel_append ?_ ?_
  · rw [List.forall₂_map_left_iff, List.forall₂_map_right_iff, List.forall₂_same]
    exact fun rule _ => assigns_fieldStmts spec rule
  · rw [List.forall₂_map_left_iff, List.forall₂_map_right_iff, List.forall₂_same]
    exact fun rule _ => assigns_valueStmts rule

/-- The hook on the map of a record. -/
def mappingHook (spec : Specification) : List Stmt :=
  (spec.postMapping.map fun template => [hook template, .blank]).getD []

/-- The hook on the entry when its fields are set. -/
def fieldsHook (spec : Specification) : List Stmt :=
  (spec.postFields.map fun template => [.blank, hook template]).getD []

theorem mem_hooks (spec : Specification) :
    ∀ stmt ∈ mappingHook spec ++ fieldsHook spec, stmt ∈ Stmt.blank :: hooks spec := by
  unfold mappingHook fieldsHook hooks
  cases spec.postMapping <;> cases spec.postFields <;> simp

/-- The code of the rules stands between the creation of the entry and what is set behind it. -/
theorem assembleEntry_eq (spec : Specification) :
    assembleEntry spec = mappingHook spec ++ newEntry :: ((blocks spec).flatten ++
      fieldsHook spec ++ setter "setId" spec.entryId ++ setter "setType" spec.entryType ++
      [appendStmt spec.validation]) := by
  rw [assembleEntry, blocks, List.flatten_append, ← List.flatMap_def, ← List.flatMap_def,
    mappingHook, fieldsHook]
  cases spec.postMapping <;> cases spec.postFields <;> simp

theorem map_key_all (spec : Specification) (store : Store) :
    (Preview.ofStore spec store).all.map Rendered.key = spec.rules.map (·.key) := by
  rw [Preview.all_ofStore, map_key_renderRules]

/-- What is reported with the code and what a preview shows have one key and one name. -/
theorem forall₂_declared (spec : Specification) (store : Store) :
    List.Forall₂ (fun v r => v.key = r.key.written ∧ v.name = r.variableName)
      (declared spec) (Preview.ofStore spec store).all := by
  have hdeclared : (declared spec).map (fun v => (v.key, v.name)) =
      (spec.rules.map (·.key)).map fun key => (key.written, key.variableName) := by
    simp only [declared, Specification.rules, List.map_append, List.map_map]
    rfl
  rw [← map_key_all spec store, List.map_map, ← List.forall₂_eq_eq_eq, List.forall₂_map_left_iff,
    List.forall₂_map_right_iff] at hdeclared
  exact hdeclared.imp fun _ _ => Prod.mk.inj

/-- **Emitted code and a preview describe the same record.** Each variable that is reported belongs
to the text at its place in the preview, those of the field rules first. The code declares these
variables in order, each with its insertion right behind it, after the entry is created and before
it gets its id and type and is appended. -/
theorem declared_agrees (spec : Specification) (o : Options) (store : Store) :
    let reported := (emit spec o).declared
    let p := Preview.ofStore spec store
    (List.Forall₂ (fun v r => v.key = r.key.written ∧ v.name = r.variableName) reported
        (p.fields ++ p.values) ∧
      p.fields.map (·.key) = spec.fieldRules.map (·.key) ∧
      p.values.map (·.key) = spec.valueRules.map (·.key)) ∧
    ∃ before blocks after,
      List.Forall₂ (fun pair block => Assigns pair.1 pair.2 block)
        (spec.rules.zip reported) blocks ∧
      (∀ stmt ∈ before ++ after, stmt ∈ Stmt.blank :: hooks spec) ∧
      assembleEntry spec = before ++ newEntry :: (blocks.flatten ++ after ++
        setter "setId" spec.entryId ++ setter "setType" spec.entryType ++
        [appendStmt spec.validation]) := by
  intro reported p
  refine ⟨⟨forall₂_declared spec store, map_key_renderRules _ _ _, map_key_renderRules _ _ _⟩, ?_⟩
  exact ⟨mappingHook spec, blocks spec, fieldsHook spec, assigns_blocks spec, mem_hooks spec,
    assembleEntry_eq spec⟩

end Extractor.Parser
