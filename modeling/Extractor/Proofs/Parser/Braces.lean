import Extractor.Parser.Emit
import Extractor.Proofs.Checksum
import Extractor.Proofs.Code.Braces
import Extractor.Proofs.Json.Paths
import Extractor.Proofs.Template.Tiling
/-!
# Emitted code is balanced

Every statement that a parser is made of closes what it opens, whatever the path to the records is,
if the texts that it takes from the specification and the options do (`BalancedTexts`). So the code
does as a whole (`balanced_code`): nothing that comes and goes with a rule, a hook, a name of the path
or a function leaves a brace behind.
-/

namespace Extractor

open Text

namespace Text

variable {texts : List String}

theorem balanced_toString (n : Nat) : Balanced (toString n) := by
  refine balanced_of_filter_eq_nil (List.filter_eq_nil_iff.2 fun c hc hbrace => ?_)
  have hdigit := Json.isDigit_of_mem_toString hc
  rcases Bool.or_eq_true_iff.1 hbrace with h | h <;>
    rw [of_decide_eq_true h] at hdigit <;> exact absurd hdigit (by decide)

theorem Balanced.intercalate {sep : String} (hsep : Balanced sep)
    (h : ∀ text ∈ texts, Balanced text) : Balanced (sep.intercalate texts) := by
  have hempty : Balanced "" := by decide
  induction texts with
  | nil => exact hempty
  | cons text texts ih =>
    rw [List.forall_mem_cons] at h
    cases texts with
    | nil => simpa using h.1
    | cons next texts =>
      rw [String.intercalate_cons_cons]
      exact (h.1.append hsep).append (ih h.2)

end Text

theorem Key.balanced_variableName (key : Key) : Balanced key.variableName := by
  have hbrace {c : Char} (hc : 'A' ≤ c ∧ c ≤ 'Z') : ¬ isBrace c = true := by
    intro h
    rcases Bool.or_eq_true_iff.1 h with h | h <;> rw [of_decide_eq_true h] at hc <;>
      exact absurd hc (by decide)
  have hletters : Balanced (Checksum.letters key.written) :=
    balanced_of_filter_eq_nil
      (List.filter_eq_nil_iff.2 fun c hc => hbrace (Checksum.mem_letters hc))
  exact Balanced.append (by decide) hletters

namespace Template

theorem substitute_of_none {text : String} (h : breakAt? opening text.toList = none) :
    substitute text = inject text := by
  have hliteral : fill expressions text = text := by
    rw [fill, scan, scanChars_of_none h, literal]
    split
    · next hempty => exact (String.toList_eq_nil_iff.1 (List.isEmpty_iff.1 hempty)).symm
    · rw [List.map_singleton, Resolver.render, String.ofList_toList, String.join_cons,
        String.join_nil, String.append_empty]
  rw [substitute, hliteral]

end Template

namespace Parser

open Stmt

section

variable {o : Options} {entry : List Stmt} {message name segment parent entries : String}
  {path : List String}

theorem Options.balanced_warning (ho : Balanced o.logCategory) (h : Balanced message) :
    Balanced (o.warning message) := by
  have hstart : Balanced ("qCWarning(" ++ o.logCategory ++ ") << ") := .insert (by decide) ho
  exact (hstart.append h).append (by decide)

theorem closed_warning (ho : Balanced o.logCategory) (h : Balanced message) :
    (Stmt.code (o.warning message)).closed :=
  closed_code (Options.balanced_warning ho h)

/-! ## The body for XML -/

namespace Xml

theorem balanced_isNamed (h : Balanced name) : Balanced (isNamed name) :=
  .append (by decide) h.escape.literalOf

theorem closed_invalidCheck (ho : Balanced o.logCategory) : (invalidCheck o).closed :=
  closed_onlyIf (by decide) (Options.balanced_warning ho (by decide))

theorem closed_forEach {body : List Stmt} (hname : Balanced name) (hbody : allClosed body) :
    (forEach name body).closed := by
  have hnamed : Balanced ("xsr.isStartElement() && " ++ isNamed name) :=
    .append (by decide) (balanced_isNamed hname)
  exact closed_block (by decide) (allClosed_cons (closed_ifThen hnamed hbody) rfl)

theorem allClosed_record (ho : Balanced o.logCategory) (hname : Balanced name)
    (hentry : allClosed entry) : allClosed (record name entry o) := by
  have hloop : Balanced ("while (" ++ readsNext ++
      " && !(xsr.isEndElement() && stack.isEmpty() && " ++ isNamed name ++ "))") :=
    .insert (by decide) (balanced_isNamed hname)
  refine allClosed_append ?_ hentry
  simp only [allClosed_cons_iff]
  exact ⟨by decide, by decide, by decide,
    closed_block hloop (by decide), closed_invalidCheck ho, rfl, rfl⟩

theorem balanced_foundFlag (index : Nat) : Balanced (foundFlag index) :=
  .append (by decide) (balanced_toString index)

theorem allClosed_missing (ho : Balanced o.logCategory) (hsegment : Balanced segment)
    (hparent : Balanced parent) : allClosed (missing segment parent o) := by
  have hstart : Balanced ("\"Expected '" ++ Text.escape segment ++ "' inside '") :=
    .insert (by decide) hsegment.escape
  exact allClosed_cons
    (closed_warning ho ((hstart.append hparent.escape).append (by decide)))
    (by decide)

/-- Each name of the path puts one more loop around what is closed. -/
theorem allClosed_scan (ho : Balanced o.logCategory) (hentry : allClosed entry)
    (hparent : Balanced parent) (hpath : ∀ name ∈ path, Balanced name) (index : Nat) :
    allClosed (scan parent index entry o path) := by
  induction path generalizing parent index with
  | nil => exact allClosed_record ho hparent hentry
  | cons segment rest ih =>
    obtain ⟨hsegment, hrest⟩ := List.forall_mem_cons.1 hpath
    cases rest with
    | nil =>
      have hloop := closed_forEach hsegment (allClosed_record ho hsegment hentry)
      rw [scan]
      simp only [allClosed_cons_iff]
      exact ⟨hloop, closed_invalidCheck ho, rfl⟩
    | cons next rest =>
      have hflag := balanced_foundFlag index
      have hdeclared : Balanced ("bool " ++ foundFlag index ++ " = false;") :=
        .insert (by decide) hflag
      have hfound : Balanced (foundFlag index ++ " = true;") := hflag.append (by decide)
      have hnot : Balanced ("!" ++ foundFlag index) := .append (by decide) hflag
      have hloop := closed_forEach hsegment
        (allClosed_cons (closed_code hfound) (ih hsegment hrest (index + 1)))
      rw [scan]
      simp only [allClosed_cons_iff]
      exact ⟨closed_code hdeclared, hloop, closed_invalidCheck ho,
        closed_ifThen hnot (allClosed_missing ho hsegment hparent), rfl⟩

theorem allClosed_body (ho : Balanced o.logCategory) (hentry : allClosed entry)
    (hpath : ∀ name ∈ path, Balanced name) : allClosed (body entry o path) := by
  cases path with
  | nil => rfl
  | cons root rest =>
    obtain ⟨hroot, hrest⟩ := List.forall_mem_cons.1 hpath
    have hfails {message : String} (h : Balanced message) :
        allClosed [.code (o.warning message), fail] :=
      allClosed_cons (closed_warning ho h) (by decide)
    have hwrongRoot : Balanced ("\"Expected '" ++ Text.escape root ++
        "', got\" << xsr.qualifiedName() << \"at XML line\" << xsr.lineNumber()") :=
      .insert (by decide) hroot.escape
    have hinner := closed_ifElse (balanced_isNamed hroot) (allClosed_scan ho hentry hroot hrest 1)
      (hfails hwrongRoot)
    rw [body]
    simp only [allClosed_cons_iff]
    exact ⟨by decide, by decide,
      closed_ifElse (by decide) (allClosed_cons hinner rfl) (hfails (by decide)), rfl⟩

end Xml

/-! ## The body for JSON -/

namespace Json

/-- The braces around the prefix of the keys stand in different pieces of its text. -/
theorem allClosed_recordMap (h : Balanced entries) : allClosed (recordMap entries) := by
  have hprefix : Balanced ("const QString keyPrefix\x7b" ++ Text.literalOf (entries ++ "/") ++
      (" + QString::number(n) + " ++ Text.literalOf "/" ++ "\x7d;")) :=
    .insert (by decide) (h.append (by decide)).literalOf
  refine allClosed_cons (closed_code ?_) (by decide)
  simpa only [String.append_assoc] using hprefix

theorem allClosed_records (h : Balanced entries) (hentry : allClosed entry) :
    allClosed (records entries entry o) := by
  have hsegments : Balanced ("for (const QString &segment : " ++ Text.literalOf entries ++
      ".split(QLatin1Char('/')))") := .insert (by decide) h.literalOf
  have hloop : Balanced ("for (int n = 0; n < entriesCount && n < " ++ toString o.maxRecords ++
      "; ++n)") := .insert (by decide) (balanced_toString _)
  rw [records]
  simp only [allClosed_cons_iff]
  exact ⟨by decide, closed_guarded hsegments (by decide +kernel), by decide, by decide,
    closed_block hloop (allClosed_append (allClosed_recordMap h) hentry), rfl⟩

theorem allClosed_body (ho : Balanced o.logCategory) (h : Balanced entries)
    (hentry : allClosed entry) : allClosed (body entry o entries) := by
  have hgather : allClosed gatherLeaves := by decide
  have hrecords : allClosed (.blank :: records (Text.escape entries) entry o) :=
    allClosed_cons rfl (allClosed_records h.escape hentry)
  have hfails {message : String} (hmessage : Balanced message) :
      allClosed [.code (o.warning message), .code "*ok = false;"] :=
    allClosed_cons (closed_warning ho hmessage) (by decide)
  have hinner := closed_ifElse (by decide : Balanced "document.isObject()")
    (allClosed_append (allClosed_append hgather hrecords)
      (by decide : allClosed [.code "*ok = true;"]))
    (hfails (by decide : Balanced "\"JSON document is not an object\""))
  rw [body]
  simp only [allClosed_cons_iff]
  exact ⟨by decide, by decide,
    closed_ifElse (by decide) (allClosed_cons hinner rfl) (hfails (by decide)), rfl⟩

end Json

end

/-! ## The code of an entry -/

/-- The templates of a specification, in the order in which the code of an entry uses them. -/
def templates (spec : Specification) : List String :=
  spec.postMapping.toList ++ (spec.fieldRules ++ spec.valueRules).map (·.template) ++
    spec.postFields.toList ++ [spec.entryId, spec.entryType] ++ spec.validation.toList

/-- Every text that the code takes over is balanced by itself; templates are as the expressions that
they become. -/
structure BalancedTexts (spec : Specification) (o : Options) : Prop where
  introduction : ∀ text ∈ spec.introduction, Balanced text
  expressions : ∀ template ∈ templates spec, Balanced (Template.substitute (Text.trim template))
  keys : ∀ rule ∈ spec.fieldRules ++ spec.valueRules, Balanced rule.key.expression
  valueClasses : ∀ rule ∈ spec.fieldRules, Balanced (spec.valueClass rule.key).name
  segments : ∀ segment ∈ spec.entriesPath, Balanced segment
  logCategory : Balanced o.logCategory
  inputName : Balanced o.inputName
  functionName : ∀ name ∈ o.functionName, Balanced name

section

variable {spec : Specification} {o : Options} {rule : Rule} {key value empty method : String}
  {template : String} {validation : Option String}

theorem balanced_expressionOr (hempty : Balanced empty)
    (h : Balanced (Template.substitute (Text.trim template))) :
    Balanced (expressionOr empty template) := by
  unfold expressionOr
  dsimp only
  split
  · exact hempty
  · exact h

theorem BalancedTexts.rule_template (h : BalancedTexts spec o)
    (hrule : rule ∈ spec.fieldRules ++ spec.valueRules) :
    Balanced (Template.substitute (Text.trim rule.template)) := by
  refine h.expressions _ ?_
  simp only [templates, List.mem_append, or_assoc]
  exact .inr (.inl (List.mem_map_of_mem hrule))

theorem closed_insertUnlessEmpty {name : String} (hname : Balanced name) (hkey : Balanced key)
    (hvalue : Balanced value) : (insertUnlessEmpty name key value).closed := by
  have hinsert : Balanced ("entry->insert(" ++ key ++ ", " ++ value ++ ");") :=
    ((Balanced.insert (by decide) hkey).append hvalue).append (by decide)
  exact closed_onlyIf (.insert (by decide) hname) hinsert

theorem allClosed_fieldStmts (h : BalancedTexts spec o) (hrule : rule ∈ spec.fieldRules) :
    allClosed (fieldStmts spec rule) := by
  have hmem := List.mem_append_left spec.valueRules hrule
  have hname := rule.key.balanced_variableName
  have hclass := h.valueClasses rule hrule
  have hexpression : Balanced (expressionOr "QString()" rule.template) :=
    balanced_expressionOr (by decide) (h.rule_template hmem)
  have hequals (b : Bool) : Balanced (if b then " " else " = ") := by cases b <;> decide
  have hstart : Balanced ("const QString " ++ rule.key.variableName) :=
    .append (by decide) hname
  have hnew : Balanced ("Value() << QSharedPointer<" ++ (spec.valueClass rule.key).name ++
      ">(new " ++ (spec.valueClass rule.key).name) :=
    (Balanced.insert (by decide) hclass).append hclass
  have hwrapped := ((hnew.append (by decide : Balanced "(")).append hname).append
    (by decide : Balanced "))")
  have hinsert := closed_insertUnlessEmpty hname (h.keys rule hmem) hwrapped
  exact allClosed_cons
    (closed_code (((hstart.append (hequals _)).append hexpression).append (by decide)))
    (allClosed_cons hinsert rfl)

theorem allClosed_valueStmts (h : BalancedTexts spec o) (hrule : rule ∈ spec.valueRules) :
    allClosed (valueStmts rule) := by
  have hmem := List.mem_append_right spec.fieldRules hrule
  have hname := rule.key.balanced_variableName
  have hexpression : Balanced (expressionOr "Value()" rule.template) :=
    balanced_expressionOr (by decide) (h.rule_template hmem)
  have hstart : Balanced ("const Value " ++ rule.key.variableName ++ " = ") :=
    .insert (by decide) hname
  have hinsert := closed_insertUnlessEmpty hname (h.keys rule hmem) hname
  exact allClosed_cons (closed_code ((hstart.append hexpression).append (by decide)))
    (allClosed_cons hinsert rfl)

theorem allClosed_setter (hmethod : Balanced method)
    (h : Balanced (Template.substitute (Text.trim template))) :
    allClosed (setter method template) := by
  have hstart : Balanced ("entry->" ++ method ++ "(") := .insert (by decide) hmethod
  unfold setter
  split
  · rfl
  · exact allClosed_cons (closed_code ((hstart.append h).append (by decide))) rfl

theorem closed_appendStmt
    (h : ∀ template ∈ validation, Balanced (Template.substitute (Text.trim template))) :
    (appendStmt validation).closed := by
  have happend : Balanced appendEntry := by decide
  unfold appendStmt
  split
  · split
    · exact closed_code happend
    · exact closed_onlyIf (h _ rfl) happend
  · exact closed_code happend

theorem allClosed_assembleEntry (h : BalancedTexts spec o) : allClosed (assembleEntry spec) := by
  have htemplate : ∀ template ∈ templates spec, Balanced (Template.substitute (Text.trim template)) :=
    h.expressions
  simp only [templates, List.forall_mem_append, List.forall_mem_cons] at htemplate
  obtain ⟨⟨⟨⟨hmapping, -⟩, hfields⟩, hid, htype, -⟩, hvalidation⟩ := htemplate
  have hnew : newEntry.closed := by decide
  have hrules : allClosed (newEntry :: spec.fieldRules.flatMap (fieldStmts spec)) :=
    allClosed_cons hnew (allClosed_flatMap fun _ => allClosed_fieldStmts h)
  have hvalues : allClosed (spec.valueRules.flatMap valueStmts) :=
    allClosed_flatMap fun _ => allClosed_valueStmts h
  refine allClosed_append (allClosed_append (allClosed_append (allClosed_append (allClosed_append
    (allClosed_append ?_ hrules) hvalues) ?_) (allClosed_setter (by decide) hid))
    (allClosed_setter (by decide) htype))
    (allClosed_cons (closed_appendStmt (by simpa using hvalidation)) rfl)
  · cases hpost : spec.postMapping with
    | none => rfl
    | some template => exact allClosed_cons (closed_code (hmapping _ (by simp [hpost]))) rfl
  · cases hpost : spec.postFields with
    | none => rfl
    | some template =>
      have hhook := closed_code (hfields template (by simp [hpost]))
      exact allClosed_cons rfl (allClosed_cons hhook rfl)

/-! ## The whole code -/

theorem allClosed_content (h : BalancedTexts spec o) : allClosed (content spec o) := by
  have hentry := allClosed_assembleEntry h
  refine allClosed_append ?_ ?_
  · unfold introduction
    split
    · next text htext =>
      exact allClosed_cons (closed_code (h.introduction text htext)) rfl
    · rfl
  · unfold bodyFor
    cases spec.format with
    | xml => exact Xml.allClosed_body h.logCategory hentry h.segments
    | json => exact Json.allClosed_body h.logCategory (.intercalate (by decide) h.segments) hentry

theorem allClosed_stmts (h : BalancedTexts spec o) : allClosed (stmts spec o) := by
  have hcontent := allClosed_content h
  unfold stmts
  split
  · exact hcontent
  · next name hname =>
    have hhead : Balanced (functionHead name spec.format) := by
      have hparameter : Balanced spec.format.parameter := by cases spec.format <;> decide
      exact ((Balanced.insert (by decide) (h.functionName name hname)).append hparameter).append
        (by decide)
    have hbody := allClosed_append (allClosed_cons (by decide :
      (Stmt.code "QVector<QSharedPointer<Entry>> result;").closed) hcontent)
      (by decide : allClosed [.blank, .code "return result;"])
    exact allClosed_cons (closed_block hhead hbody) rfl

theorem allClosed_banner (h : Balanced o.inputName) : allClosed (banner o) := by
  have hinput : Balanced ("using information from configuration file '" ++ o.inputName ++ "'") :=
    .insert (by decide) h
  exact allClosed_cons (by decide) (allClosed_cons (closed_comment hinput) rfl)

/-- **Emitted code is balanced** if the texts that it takes over are: for both formats, every path,
and with or without a function. -/
theorem balanced_code (h : BalancedTexts spec o) : Balanced (emit spec o).code := by
  have hstmts := allClosed_append (allClosed_banner h.inputName) (allClosed_stmts h)
  have hlines : (page spec o).lines = linesOf (banner o ++ stmts spec o) := by
    rw [linesOf_append]
    rfl
  rw [emit, Page.text, Layout.balanced_indent, hlines]
  exact balanced_linesOf _ hstmts

end

/-- A lambda with a block and a placeholder in it. -/
def lambda : String := "[]() \x7b if (a) \x7b b(); \x7d return \x7b\x7bti\x7d\x7d; \x7d()"

def nested : Specification where
  format := .xml
  entriesPath := ["feed", "group", "entry"]
  introduction := some "struct Pair \x7b int a\x7b0\x7d; \x7d;"
  fieldRules := [⟨.symbol "Entry::ftTitle", lambda⟩]
  valueRules := []
  typeOverrides := []
  entryId := ""
  entryType := "Entry::etArticle"
  validation := none
  postMapping := none
  postFields := none

theorem balanced_substitute_lambda : Balanced (Template.substitute (trim lambda)) := by
  have htext : (trim lambda).toList = lambda.toList := by decide
  have hopen : breakAt? Template.opening lambda.toList =
      some ("[]() \x7b if (a) \x7b b(); \x7d return ".toList, "ti\x7d\x7d; \x7d()".toList) := by
    decide
  have hclose : breakAt? Template.closing "ti\x7d\x7d; \x7d()".toList =
      some ("ti".toList, "; \x7d()".toList) := by decide
  have hrest : breakAt? Template.opening "; \x7d()".toList = none := by decide
  unfold Template.substitute Template.fill Template.scan
  rw [htext, Template.scanChars_of_some hopen hclose, Template.scanChars_of_none hrest]
  decide

theorem balancedTexts_nested : BalancedTexts nested { functionName := some "parse" } where
  introduction := by decide
  expressions := by
    have hnone : ∀ template ∈ ["", "Entry::etArticle"],
        breakAt? Template.opening (trim template).toList = none ∧
          Balanced (Template.inject (trim template)) := by decide
    refine List.forall_mem_cons.2 ⟨balanced_substitute_lambda, fun template htemplate => ?_⟩
    obtain ⟨hopen, h⟩ := hnone template htemplate
    rwa [Template.substitute_of_none hopen]
  keys := by decide
  valueClasses := by decide
  segments := by decide
  logCategory := by decide
  inputName := by decide
  functionName := by decide

theorem balanced_code_nested :
    BalancedTexts nested { functionName := some "parse" } ∧
      Balanced (emit nested { functionName := some "parse" }).code :=
  ⟨balancedTexts_nested, balanced_code balancedTexts_nested⟩

end Parser

end Extractor
