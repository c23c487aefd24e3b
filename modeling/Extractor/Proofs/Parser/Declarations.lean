import Extractor.Parser.Entry
import Extractor.Proofs.Checksum
import Extractor.Proofs.Specification.Rules
import Mathlib.Data.List.Infix
import Mathlib.Data.List.Nodup
/-!
# What the code for an entry declares

Each rule declares one variable, and apart from the hooks, which are code of the specification
itself, nothing else does (`countP_assembleEntry`). Two variables of different keys have one name if
the checksums of the keys agree modulo 26 ^ 6; where this happens to no two keys, and no key has a
rule of both kinds, each variable is declared once (`nodup_names_iff`).
-/

namespace Extractor.Parser

/-- The statement starts with the declaration of a variable with this name. -/
def declares (name : String) : Stmt → Bool
  | .code text => ["const QString ", "const Value "].any fun type =>
      (type ++ name ++ " ").toList.isPrefixOf text.toList
  | _ => false

/-- The statements that a specification gives as code. -/
def hooks (spec : Specification) : List Stmt :=
  (spec.postMapping.toList ++ spec.postFields.toList).map hook

section

variable {name text type rest : String} {spec : Specification} {rule : Rule} {key other : Key}

theorem declares_code_eq_false (h : text.toList.head? ≠ some 'c') :
    declares name (.code text) = false := by
  have hstart : ∀ type ∈ ["const QString ", "const Value "],
      ¬ (type ++ name ++ " ").toList <+: text.toList := by
    rintro type htype ⟨after, hafter⟩
    rw [← hafter] at h
    rcases List.mem_pair.1 htype with rfl | rfl <;> simp at h
  rw [declares, List.any_eq_false]
  exact fun type htype => by rw [List.isPrefixOf_iff_prefix]; exact hstart type htype

/-- A declaration is that of the variable that it names. -/
theorem declares_declaration (htype : type ∈ ["const QString ", "const Value "]) :
    declares key.variableName (.code (type ++ other.variableName ++ " " ++ rest)) =
      decide (other.variableName = key.variableName) := by
  have hname : key.variableName.toList ++ [' '] <+: other.variableName.toList ++ ' ' :: rest.toList ↔
      other.variableName = key.variableName := by
    constructor
    · intro h
      have hkey := (List.prefix_append key.variableName.toList [' ']).trans h
      have hother : other.variableName.toList <+: other.variableName.toList ++ ' ' :: rest.toList :=
        List.prefix_append _ _
      have hlength : key.variableName.toList.length = other.variableName.toList.length := by
        rw [Key.length_variableName, Key.length_variableName]
      have heq := (List.prefix_of_prefix_length_le hkey hother hlength.le).eq_of_length hlength
      exact (String.toList_inj.1 heq).symm
    · intro h
      rw [h]
      exact ⟨rest.toList, by simp⟩
  rw [Bool.eq_iff_iff, decide_eq_true_iff, ← hname, declares]
  rcases List.mem_pair.1 htype with rfl | rfl <;> simp

/-- A rule declares its own variable, and that once. -/
theorem countP_declaration (htype : type ∈ ["const QString ", "const Value "])
    (guard statement : String) :
    [Stmt.code (type ++ rule.key.variableName ++ " " ++ rest), .guarded guard statement].countP
        (declares key.variableName) =
      [rule.key.variableName].count key.variableName := by
  rw [List.countP_cons, declares_declaration htype, List.count_singleton]
  by_cases h : rule.key.variableName = key.variableName <;> simp [h, declares]

theorem fieldStmts_eq (spec : Specification) (rule : Rule) :
    let valueClass := (spec.valueClass rule.key).name
    ∃ rest, fieldStmts spec rule = [
      .code ("const QString " ++ rule.key.variableName ++ " " ++ rest),
      insertUnlessEmpty rule.key.variableName rule.key.expression
        ("Value() << QSharedPointer<" ++ valueClass ++ ">(new " ++ valueClass ++ "(" ++
          rule.key.variableName ++ "))")] := by
  intro valueClass
  unfold fieldStmts
  dsimp only
  split
  · exact ⟨expressionOr "QString()" rule.template ++ ";", by simp only [String.append_assoc]; rfl⟩
  · refine ⟨"= " ++ expressionOr "QString()" rule.template ++ ";", ?_⟩
    have hequals : " = " = " " ++ "= " := by decide
    simp only [hequals, String.append_assoc]
    rfl

theorem valueStmts_eq (rule : Rule) :
    ∃ rest, valueStmts rule = [
      .code ("const Value " ++ rule.key.variableName ++ " " ++ rest),
      insertUnlessEmpty rule.key.variableName rule.key.expression rule.key.variableName] := by
  unfold valueStmts
  dsimp only
  refine ⟨"= " ++ expressionOr "Value()" rule.template ++ ";", ?_⟩
  have hequals : " = " = " " ++ "= " := by decide
  simp only [hequals, String.append_assoc]

theorem countP_fieldStmts : (fieldStmts spec rule).countP (declares key.variableName) =
    [rule.key.variableName].count key.variableName := by
  obtain ⟨rest, hstmts⟩ := fieldStmts_eq spec rule
  rw [hstmts]
  exact countP_declaration List.mem_cons_self _ _

theorem countP_valueStmts : (valueStmts rule).countP (declares key.variableName) =
    [rule.key.variableName].count key.variableName := by
  obtain ⟨rest, hstmts⟩ := valueStmts_eq rule
  rw [hstmts]
  exact countP_declaration (List.mem_cons_of_mem _ List.mem_cons_self) _ _

theorem countP_flatMap {stmtsOf : Rule → List Stmt}
    (h : ∀ rule, (stmtsOf rule).countP (declares name) = [rule.key.variableName].count name)
    (rules : List Rule) :
    (rules.flatMap stmtsOf).countP (declares name) =
      (rules.map (·.key.variableName)).count name := by
  induction rules with
  | nil => rfl
  | cons rule rules ih =>
    rw [List.flatMap_cons, List.countP_append, h, ih, ← List.count_append]
    rfl

theorem countP_setter (method template : String) :
    (setter method template).countP (declares name) = 0 := by
  unfold setter
  split
  · rfl
  · rw [List.countP_singleton, declares_code_eq_false (by simp)]
    rfl

theorem declares_newEntry : declares name newEntry = false :=
  declares_code_eq_false (by simp)

theorem declares_appendStmt (validation : Option String) :
    declares name (appendStmt validation) = false := by
  have happend : declares name (.code appendEntry) = false := declares_code_eq_false (by decide)
  unfold appendStmt
  split
  · split
    · exact happend
    · rfl
  · exact happend

end

/-- **What the code for an entry declares.** The variable of a key is declared once for each rule
that it is the variable of, and nowhere else, unless a hook declares it. -/
theorem countP_assembleEntry (spec : Specification) (key : Key) :
    (assembleEntry spec).countP (declares key.variableName) =
      (spec.rules.map (·.key.variableName)).count key.variableName +
        (hooks spec).countP (declares key.variableName) := by
  have hblank : declares key.variableName .blank = false := rfl
  rw [assembleEntry, hooks, Specification.rules, List.map_append, List.map_append,
    List.count_append]
  simp only [List.countP_append, List.countP_cons, List.countP_nil, Bool.false_eq_true, if_false,
    countP_flatMap (fun _ => countP_fieldStmts), countP_flatMap (fun _ => countP_valueStmts),
    countP_setter, declares_newEntry, declares_appendStmt]
  cases spec.postMapping <;> cases spec.postFields <;>
    simp only [List.countP_cons, List.countP_nil, Option.toList_some, Option.toList_none,
      List.map_cons, List.map_nil, hblank, Bool.false_eq_true, if_false] <;>
    omega

theorem map_name_declared (spec : Specification) :
    (declared spec).map Variable.name = spec.rules.map (·.key.variableName) := by
  rw [declared, Specification.rules, List.map_append, List.map_append, List.map_map, List.map_map]
  rfl

/-- Different keys of the rules have checksums that their letters tell apart. -/
def Apart (spec : Specification) : Prop :=
  ∀ r ∈ spec.rules, ∀ s ∈ spec.rules, r.key ≠ s.key →
    ¬ Checksum.ofText r.key.written ≡ Checksum.ofText s.key.written [MOD 26 ^ 6]

instance (spec : Specification) : Decidable (Apart spec) :=
  inferInstanceAs (Decidable (∀ r ∈ spec.rules, ∀ s ∈ spec.rules, r.key ≠ s.key →
    ¬ Checksum.ofText r.key.written ≡ Checksum.ofText s.key.written [MOD 26 ^ 6]))

theorem nodup_names_iff {spec : Specification} (hkeys : (spec.rules.map (·.key)).Nodup) :
    ((declared spec).map Variable.name).Nodup ↔ Apart spec := by
  have hnames : spec.rules.map (·.key.variableName) =
      (spec.rules.map (·.key)).map Key.variableName := by
    rw [List.map_map]
    rfl
  rw [map_name_declared, hnames, List.nodup_map_iff_inj_on hkeys, Apart]
  simp only [List.forall_mem_map, Key.variableName_eq_iff]
  exact forall₂_congr fun r _ => forall₂_congr fun s _ => not_imp_not.symm

theorem countP_of_nodup {spec : Specification} (h : ((declared spec).map Variable.name).Nodup)
    {v : Variable} (hv : v ∈ declared spec) :
    (assembleEntry spec).countP (declares v.name) =
      1 + (hooks spec).countP (declares v.name) := by
  have hname : v.name ∈ spec.rules.map (·.key.variableName) :=
    map_name_declared spec ▸ List.mem_map_of_mem hv
  obtain ⟨rule, -, heq⟩ := List.mem_map.1 hname
  rw [map_name_declared] at h
  rw [← heq, countP_assembleEntry, heq, List.count_eq_one_of_mem h hname]

/-- **When each variable has a name of its own.** Where no key has a rule of both kinds, the names
are distinct exactly if the letters tell the keys apart; and then each variable is declared once,
the code of the hooks aside. -/
theorem declared_once {source : String} {spec : Specification}
    (h : Specification.load source = .ok spec)
    (hkinds : ∀ field ∈ spec.fieldRules, ∀ value ∈ spec.valueRules, field.key ≠ value.key) :
    (((declared spec).map Variable.name).Nodup ↔ Apart spec) ∧
      (Apart spec → ∀ v ∈ declared spec, (assembleEntry spec).countP (declares v.name) =
        1 + (hooks spec).countP (declares v.name)) := by
  have hnodup := nodup_names_iff (Grammar.nodup_keys_rules h hkinds)
  exact ⟨hnodup, fun hapart v hv => countP_of_nodup (hnodup.2 hapart) hv⟩

/-- The specification of a title and an author, with a hook that declares a variable of its own. -/
def hookedSource : String :=
  "format: xml\nentries: a\npostprocessingmapping: const QString t = 1;\n" ++
    "field[Title]: \x7b\x7bt\x7d\x7d\nvalue[Author]: 2"

def hooked : Specification where
  format := .xml
  entriesPath := ["a"]
  introduction := none
  fieldRules := [⟨.symbol "Title", "\x7b\x7bt\x7d\x7d"⟩]
  valueRules := [⟨.symbol "Author", "2"⟩]
  typeOverrides := []
  entryId := ""
  entryType := ""
  validation := none
  postMapping := some "const QString t = 1;"
  postFields := none

theorem declared_once_hooked :
    Specification.load hookedSource = .ok hooked ∧
      (∀ field ∈ hooked.fieldRules, ∀ value ∈ hooked.valueRules, field.key ≠ value.key) ∧
      Apart hooked ∧ ((declared hooked).map Variable.name).Nodup ∧
      ∀ v ∈ declared hooked, (assembleEntry hooked).countP (declares v.name) =
        1 + (hooks hooked).countP (declares v.name) := by
  have hload : Specification.load hookedSource = .ok hooked := by decide +kernel
  have hkinds : ∀ field ∈ hooked.fieldRules, ∀ value ∈ hooked.valueRules,
      field.key ≠ value.key := by decide
  have hapart : Apart hooked := by decide +kernel
  obtain ⟨hnames, hcount⟩ := declared_once hload hkinds
  exact ⟨hload, hkinds, hapart, hnames.2 hapart, hcount hapart⟩

/-- Two keys with the same checksum. -/
def collidingSource : String := "format: xml\nentries: a\nfield[bab]: 1\nfield[aca]: 2"

def colliding : Specification :=
  { hooked with
    fieldRules := [⟨.symbol "bab", "1"⟩, ⟨.symbol "aca", "2"⟩], valueRules := [],
    postMapping := none }

/-- The title has a variable of its own, which the hook declares as well. -/
def shadowingSource : String :=
  "format: xml\nentries: a\npostprocessingmapping: const QString valueBJKOII = 1;\nfield[Title]: 2"

def shadowing : Specification :=
  { hooked with
    fieldRules := [⟨.symbol "Title", "2"⟩], valueRules := [],
    postMapping := some "const QString valueBJKOII = 1;" }

/-- **Variables are not always declared once**: their keys may have the same letters, and a hook may
declare one of them again. -/
theorem not_declared_once :
    (¬ ∀ source spec, Specification.load source = .ok spec →
      ((declared spec).map Variable.name).Nodup) ∧
    ¬ ∀ source spec, Specification.load source = .ok spec →
      ((declared spec).map Variable.name).Nodup →
      ∀ v ∈ declared spec, (assembleEntry spec).countP (declares v.name) = 1 := by
  constructor
  · intro h
    have hnodup := h collidingSource colliding (by decide +kernel)
    revert hnodup
    decide +kernel
  · intro h
    have hcount := h shadowingSource shadowing (by decide +kernel) (by decide +kernel)
    revert hcount
    decide +kernel

end Extractor.Parser
