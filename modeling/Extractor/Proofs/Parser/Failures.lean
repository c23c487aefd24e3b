import Extractor.Parser.Xml
import Extractor.Proofs.Parser.Variables
import Extractor.Proofs.Text.Literal
import Extractor.Proofs.Xml.Path
/-!
# Failures of the emitted code and of the search for records

The body for XML gives up at the same places as the search for records: where there is no start
tag, where the root has another name, and where a name between the first and the last one is not
found. At each of them the code logs a warning (`failingOf_body`), and the search fails with a
diagnostic that starts as this warning does (`body_warns`).
-/

namespace Extractor.Parser

/-! ## Warnings before a failure -/

/-- The statement logs a warning, perhaps under a condition. -/
def isWarning : Stmt → Bool
  | .code text => "qCWarning(".toList.isPrefixOf text.toList
  | .guarded _ statement => "qCWarning(".toList.isPrefixOf statement.toList
  | _ => false

/-- The statement tells the caller that there is no result. -/
def isFailure : Stmt → Bool
  | .code text => text = "*ok = false;"
  | _ => false

mutual

/-- The warnings inside a statement that a failure follows immediately, in the order of the code. -/
def failing : Stmt → List Stmt
  | .block _ body => failingOf body
  | .choice arms none => failingArms arms
  | .choice arms (some body) => failingArms arms ++ failingOf body
  | .code _ | .guarded _ _ | .comment _ | .blank => []

def failingOf : List Stmt → List Stmt
  | [] => []
  | stmt :: rest =>
    (if isWarning stmt && rest.head?.any isFailure then [stmt] else []) ++ failing stmt ++
      failingOf rest

def failingArms : List (String × List Stmt) → List Stmt
  | [] => []
  | (_, body) :: rest => failingOf body ++ failingArms rest

end

section

variable {text guard statement : String} {stmt : Stmt} {s t rest : List Stmt}

theorem isWarning_warning (o : Options) (message : String) :
    isWarning (.code (o.warning message)) = true := by
  simp [isWarning, Options.warning]

theorem isWarning_code_eq_false (h : text.toList.head? ≠ some 'q') :
    isWarning (.code text) = false := by
  rw [isWarning, Bool.eq_false_iff, Ne, List.isPrefixOf_iff_prefix]
  rintro ⟨after, hafter⟩
  rw [← hafter] at h
  exact h rfl

theorem isFailure_code_eq_false (h : text.toList.head? ≠ some '*') :
    isFailure (.code text) = false := by
  rw [isFailure, decide_eq_false_iff_not]
  rintro rfl
  exact h rfl

theorem failingOf_cons_of_not_warning (h : isWarning stmt = false) :
    failingOf (stmt :: rest) = failing stmt ++ failingOf rest := by
  rw [failingOf, h]
  rfl

theorem failingOf_cons_of_not_failure (h : rest.head?.any isFailure = false) :
    failingOf (stmt :: rest) = failing stmt ++ failingOf rest := by
  rw [failingOf, h, Bool.and_false]
  rfl

theorem failingOf_append (h : t.head?.any isFailure = false) :
    failingOf (s ++ t) = failingOf s ++ failingOf t := by
  induction s with
  | nil => rfl
  | cons stmt s ih =>
    -- What follows `stmt` changes only if it is the last one, and no failure follows it then.
    have hhead : (s ++ t).head?.any isFailure = s.head?.any isFailure := by
      cases s with
      | nil => simpa using h
      | cons next s => rfl
    rw [List.cons_append, failingOf, hhead, ih, failingOf, List.append_assoc _ (failingOf s)]

theorem failing_ifThen (condition : String) (body : List Stmt) :
    failing (.ifThen condition body) = failingOf body := by
  rw [Stmt.ifThen, failing, failingArms, failingArms, List.append_nil]

theorem failing_ifElse (condition : String) (body otherwise : List Stmt) :
    failing (.ifElse condition body otherwise) = failingOf body ++ failingOf otherwise := by
  rw [Stmt.ifElse, failing, failingArms, failingArms, List.append_nil]

/-- No warning in these statements has a failure behind it, and they do not start with one. -/
structure Quiet (stmts : List Stmt) : Prop where
  failing : failingOf stmts = []
  head : stmts.head?.any isFailure = false

namespace Quiet

theorem nil : Quiet [] := ⟨rfl, rfl⟩

theorem append (hs : Quiet s) (ht : Quiet t) : Quiet (s ++ t) := by
  refine ⟨by rw [failingOf_append ht.head, hs.failing, ht.failing, List.append_nil], ?_⟩
  cases s with
  | nil => exact ht.head
  | cons stmt s => exact hs.head

theorem cons (h : Quiet [stmt]) (hrest : Quiet rest) : Quiet (stmt :: rest) := h.append hrest

theorem flatten {blocks : List (List Stmt)} (h : ∀ block ∈ blocks, Quiet block) :
    Quiet blocks.flatten := by
  induction blocks with
  | nil => exact .nil
  | cons block blocks ih =>
    rw [List.forall_mem_cons] at h
    exact h.1.append (ih h.2)

theorem code (h : text.toList.head? ≠ some '*') : Quiet [.code text] :=
  ⟨failingOf_cons_of_not_failure rfl, isFailure_code_eq_false h⟩

theorem guarded : Quiet [.guarded guard statement] :=
  ⟨failingOf_cons_of_not_failure rfl, rfl⟩

theorem block {head : String} (h : failingOf s = []) : Quiet [.block head s] := by
  refine ⟨?_, rfl⟩
  rw [failingOf_cons_of_not_failure rfl, Extractor.Parser.failing, h]
  rfl

theorem choice {arms : List (String × List Stmt)} (h : ∀ arm ∈ arms, failingOf arm.2 = []) :
    Quiet [.choice arms none] := by
  refine ⟨?_, rfl⟩
  rw [failingOf_cons_of_not_failure rfl, Extractor.Parser.failing, failingOf, List.append_nil]
  induction arms with
  | nil => rfl
  | cons arm arms ih =>
    rw [List.forall_mem_cons] at h
    rw [failingArms, h.1, ih h.2, List.nil_append]

theorem ifThen {condition : String} (h : failingOf s = []) : Quiet [.ifThen condition s] :=
  choice fun _ harm => List.mem_singleton.1 harm ▸ h

end Quiet

/-! ## The code for an entry -/

theorem quiet_blocks (spec : Specification) : ∀ block ∈ blocks spec, Quiet block := by
  intro block hblock
  have hcode (type name rest guard statement : String) (h : type.toList.head? = some 'c') :
      Quiet [.code (type ++ name ++ " " ++ rest), .guarded guard statement] := by
    have hhead : (type ++ name ++ " " ++ rest).toList.head? = some 'c' := by
      obtain ⟨after, hafter⟩ := List.head?_eq_some_iff.1 h
      simp [hafter]
    exact (Quiet.code (by rw [hhead]; decide)).append .guarded
  rcases List.mem_append.1 hblock with hfield | hvalue
  · obtain ⟨rule, -, rfl⟩ := List.mem_map.1 hfield
    obtain ⟨rest, hstmts⟩ := fieldStmts_eq spec rule
    rw [hstmts]
    exact hcode "const QString " _ _ _ _ rfl
  · obtain ⟨rule, -, rfl⟩ := List.mem_map.1 hvalue
    obtain ⟨rest, hstmts⟩ := valueStmts_eq rule
    rw [hstmts]
    exact hcode "const Value " _ _ _ _ rfl

theorem quiet_setter (method template : String) : Quiet (setter method template) := by
  unfold setter
  split
  · exact .nil
  · exact .code (by simp)

theorem quiet_appendStmt (validation : Option String) : Quiet [appendStmt validation] := by
  have happend : Quiet [.code appendEntry] := .code (by decide)
  unfold appendStmt
  split
  · split
    · exact happend
    · exact .guarded
  · exact happend

theorem quiet_newEntry : Quiet [newEntry] := by
  unfold newEntry
  exact .code (by simp)

theorem quiet_fieldsHook (spec : Specification) : Quiet (fieldsHook spec) := by
  unfold fieldsHook
  cases spec.postFields with
  | none => exact .nil
  | some template =>
    refine ⟨?_, rfl⟩
    rw [Option.map_some, Option.getD_some, failingOf_cons_of_not_warning rfl,
      failingOf_cons_of_not_failure rfl]
    rfl

/-- A hook may be any code, but a blank line keeps it apart from what is before it. -/
theorem failingOf_assembleEntry (spec : Specification) : failingOf (assembleEntry spec) = [] := by
  have hmapping : failingOf (mappingHook spec) = [] := by
    unfold mappingHook
    cases spec.postMapping with
    | none => rfl
    | some template =>
      rw [Option.map_some, Option.getD_some, failingOf_cons_of_not_failure rfl,
        failingOf_cons_of_not_warning rfl]
      rfl
  have hrest := quiet_newEntry.append <| ((((Quiet.flatten (quiet_blocks spec)).append
    (quiet_fieldsHook spec)).append (quiet_setter "setId" spec.entryId)).append
    (quiet_setter "setType" spec.entryType)).append (quiet_appendStmt spec.validation)
  rw [List.singleton_append] at hrest
  rw [assembleEntry_eq, failingOf_append hrest.head, hmapping, hrest.failing]
  rfl

end

namespace Xml

/-! ## The code for a path -/

/-- Why there is no way to the records: there is no start tag, the root has another name, or there
is no element with a name behind that of its parent. -/
inductive Lack where
  | start
  | root (name : String)
  | segment (name parent : String)

namespace Lack

/-- How the messages about it start. -/
def opening : Lack → String
  | .start => "Could not read start element at XML line"
  | .root name => "Expected '" ++ name ++ "', got"
  | .segment name parent => "Expected '" ++ name ++ "' inside '" ++ parent ++ "' at XML line"

/-- What the code logs behind that. -/
def details : Lack → String
  | .start => " << xsr.lineNumber() << \":\" << xsr.errorString()"
  | .root _ => " << xsr.qualifiedName() << \"at XML line\" << xsr.lineNumber()"
  | .segment _ _ => " << xsr.lineNumber()"

def logged (lack : Lack) : String := "\"" ++ Text.escape lack.opening ++ "\"" ++ lack.details

def warning (o : Options) (lack : Lack) : Stmt := .code (o.warning lack.logged)

end Lack

/-- The names of the path that have to be there, each inside the one before it. -/
def lacksBelow (parent : String) (path : List String) : List Lack :=
  List.zipWith Lack.segment path.dropLast (parent :: path)

/-- In the order in which a search runs into them. -/
def lacks (root : String) (path : List String) : List Lack :=
  .start :: .root root :: lacksBelow root path

section

variable {entry : List Stmt} (o : Options)

theorem logged_start : Lack.start.logged =
    "\"Could not read start element at XML line\" << xsr.lineNumber() << \":\" << xsr.errorString()" := by
  decide

theorem logged_root (name : String) : (Lack.root name).logged =
    "\"Expected '" ++ Text.escape name ++
      "', got\" << xsr.qualifiedName() << \"at XML line\" << xsr.lineNumber()" := by
  have hexpected : Text.escape "Expected '" = "Expected '" := by decide
  have hgot : Text.escape "', got" = "', got" := by decide
  rw [Lack.logged, Lack.opening, Text.escape_append, Text.escape_append, hexpected, hgot,
    ← String.toList_inj]
  simp [Lack.details]

theorem logged_segment (name parent : String) : (Lack.segment name parent).logged =
    "\"Expected '" ++ Text.escape name ++ "' inside '" ++ Text.escape parent ++
      "' at XML line\" << xsr.lineNumber()" := by
  have hexpected : Text.escape "Expected '" = "Expected '" := by decide
  have hinside : Text.escape "' inside '" = "' inside '" := by decide
  have hline : Text.escape "' at XML line" = "' at XML line" := by decide
  simp only [Lack.logged, Lack.opening, Text.escape_append, hexpected, hinside, hline]
  rw [← String.toList_inj]
  simp [Lack.details]

theorem missing_eq (segment parent : String) :
    missing segment parent o = [(Lack.segment segment parent).warning o, fail] := by
  rw [missing, Lack.warning, logged_segment]

/-- The two statements of a failure. -/
theorem failingOf_lack (lack : Lack) : failingOf [lack.warning o, fail] = [lack.warning o] := by
  have hwarning : isWarning (lack.warning o) = true := isWarning_warning o _
  rw [failingOf, hwarning, failingOf_cons_of_not_failure rfl]
  rfl

theorem failing_forEach (name : String) (body : List Stmt) :
    failing (forEach name body) = failingOf body := by
  rw [forEach, failing, failingOf_cons_of_not_failure rfl, failing_ifThen, failingOf,
    List.append_nil]

theorem failingOf_invalidCheck : failingOf [invalidCheck o] = [] :=
  failingOf_cons_of_not_failure rfl

theorem quiet_declareText (value : String) : Quiet [declareText value] := by
  unfold declareText
  exact .code (by simp)

theorem quiet_onStart : Quiet onStart := by
  unfold onStart
  refine .cons (.code (by decide)) (.cons (.code (by decide)) (.block ?_))
  refine (Quiet.cons (quiet_declareText _) (.ifThen ?_)).failing
  exact (Quiet.cons .guarded (.code (by simp))).failing

theorem quiet_onCharacters : Quiet onCharacters := by
  unfold onCharacters
  refine .cons (quiet_declareText _) (.ifThen ?_)
  exact (Quiet.cons (.code (by simp)) (.cons (.code (by decide)) .guarded)).failing

/-- A record is read without a failure. -/
theorem failingOf_record (name : String) (hentry : failingOf entry = []) :
    failingOf (record name entry o) = [] := by
  have hend : Quiet onEnd := .guarded
  have hblank : Quiet (.blank :: entry) := by
    refine ⟨?_, rfl⟩
    rw [failingOf_cons_of_not_warning rfl, hentry]
    rfl
  unfold record
  refine (Quiet.cons (.code (by decide)) (.cons (.code (by decide)) (.cons (.code (by decide))
    (.cons (.block (Quiet.choice ?_).failing) (.cons .guarded hblank))))).failing
  simp [quiet_onStart.failing, hend.failing, quiet_onCharacters.failing]

/-- The innermost loop comes first in the code. -/
theorem failingOf_scan (hentry : failingOf entry = []) (path : List String) (parent : String)
    (index : Nat) :
    failingOf (scan parent index entry o path) =
      (lacksBelow parent path).reverse.map (Lack.warning o) := by
  induction path generalizing parent index with
  | nil => exact failingOf_record o parent hentry
  | cons segment rest ih =>
    cases rest with
    | nil =>
      rw [scan, failingOf_cons_of_not_failure rfl, failing_forEach, failingOf_record o _ hentry,
        failingOf_invalidCheck]
      rfl
    | cons next rest =>
      have hflag : isWarning (.code ("bool " ++ foundFlag index ++ " = false;")) = false :=
        isWarning_code_eq_false (by simp)
      have hfound : isWarning (.code (foundFlag index ++ " = true;")) = false :=
        isWarning_code_eq_false (by simp [foundFlag])
      have hmissing : failing (.ifThen ("!" ++ foundFlag index) (missing segment parent o)) =
          [(Lack.segment segment parent).warning o] := by
        rw [missing_eq, failing_ifThen, failingOf_lack]
      have hlacks : lacksBelow parent (segment :: next :: rest) =
          .segment segment parent :: lacksBelow segment (next :: rest) := rfl
      rw [scan, failingOf_cons_of_not_warning hflag, failingOf_cons_of_not_failure rfl,
        failing_forEach, failingOf_cons_of_not_warning hfound, ih,
        failingOf_cons_of_not_failure rfl, failingOf_cons_of_not_failure rfl, hmissing, hlacks,
        List.reverse_cons, List.map_append]
      rfl

/-- **Where the code fails.** The warnings with a failure behind them are those about the start of
the document, its root and the names between the first and the last one. -/
theorem failingOf_body (hentry : failingOf entry = []) (root : String) (path : List String) :
    failingOf (body entry o (root :: path)) = (lacks root path).reverse.map (Lack.warning o) := by
  have hstart := failingOf_lack o .start
  have hroot := failingOf_lack o (.root root)
  rw [Lack.warning, logged_start] at hstart
  rw [Lack.warning, logged_root] at hroot
  rw [body, failingOf_cons_of_not_failure rfl, failingOf_cons_of_not_failure rfl,
    failingOf_cons_of_not_failure rfl, failing_ifElse, failingOf_cons_of_not_failure rfl,
    failing_ifElse, failingOf_scan o hentry, hroot, hstart, lacks, List.reverse_cons,
    List.reverse_cons, List.map_append, List.map_append]
  simp only [failing, failingOf, List.nil_append, List.append_nil, List.map_cons, List.map_nil,
    Lack.warning, logged_root, logged_start]

end

/-! ## The search for records -/

section

variable {s : Xml.Stream} {lack : Lack} {diagnostic root : String} {path : List String}

/-- The diagnostic tells of the lack, with the same names. -/
inductive Reports (s : Xml.Stream) : Lack → String → Prop
  | start (line : Nat) : Reports s .start (s.noStartMessage line)
  | root (name found : String) (line : Nat) :
    Reports s (.root name) (Xml.Stream.otherRootMessage name found line)
  | segment (name parent : String) : Reports s (.segment name parent) (s.missingMessage name parent)

theorem Reports.eq_opening_append (h : Reports s lack diagnostic) :
    ∃ rest, diagnostic = lack.opening ++ rest := by
  cases h with
  | start line =>
    have hmarker (rest : String) : "Could not read start element" ++ (" at XML line " ++ rest) =
        Lack.start.opening ++ (" " ++ rest) := by
      have h : "Could not read start element" ++ " at XML line " = Lack.start.opening ++ " " := by
        decide +kernel
      rw [← String.append_assoc, h, String.append_assoc]
    unfold Xml.Stream.noStartMessage
    simp only [String.append_assoc, hmarker]
    exact ⟨_, rfl⟩
  | root name found line =>
    have hgot : "', got \"" = "', got" ++ " \"" := by decide
    refine ⟨" \"" ++ found ++ "\" at XML line " ++ toString line, ?_⟩
    simp only [Lack.opening, Xml.Stream.otherRootMessage, hgot, String.append_assoc]
  | segment name parent =>
    have hline : "' at XML line " = "' at XML line" ++ " " := by decide
    refine ⟨" " ++ toString s.lastLine, ?_⟩
    simp only [Lack.opening, Xml.Stream.missingMessage, hline, String.append_assoc]

theorem segment_mem_lacks {missing parent : String} {k : Nat} (hk : k < path.dropLast.length)
    (hmissing : path[k]? = some missing) (hparent : (root :: path)[k]? = some parent) :
    .segment missing parent ∈ lacks root path := by
  have hlast : path.dropLast[k]? = some missing := by
    rw [List.getElem?_dropLast, if_pos (List.length_dropLast ▸ hk), hmissing]
  have hlack : (lacksBelow root path)[k]? = some (.segment missing parent) := by
    rw [lacksBelow, List.getElem?_zipWith, hlast, hparent]
  exact List.mem_cons_of_mem _ (List.mem_cons_of_mem _ (List.mem_of_getElem? hlack))

open scoped List in
/-- A search that fails tells of one lack; all else that it says is about faults of the document. -/
theorem reports_of_not_ok (h : (s.extract (root :: path)).ok = false) :
    ∃ lack ∈ lacks root path, ∃ before diagnostic after, Reports s lack diagnostic ∧
      (s.extract (root :: path)).diagnostics = before ++ diagnostic :: after ∧
      ∀ remark ∈ before ++ after, remark ∈ s.remarks [] := by
  by_cases hroot : ∃ tag behind, Xml.FirstTag s.tokens tag behind ∧
      tag.token.startName? = some root
  · obtain ⟨tag, behind, hfirst, hname⟩ := hroot
    rw [Xml.Stream.extract_of_start path hfirst hname] at h ⊢
    have hsub : ¬ path.dropLast <+ Xml.startNames behind := by
      intro hsub
      rw [Xml.Stream.below_ok hsub] at h
      cases h
    obtain ⟨k, missing, parent, hmissing, hparent, hat, hbelow⟩ :=
      Xml.Stream.below_missing s root hsub
    -- The last name may be missing, so the search fails before it.
    have hk : k < path.dropLast.length := by
      by_contra hle
      rw [List.length_dropLast, Nat.not_lt] at hle
      exact hsub (List.dropLast_eq_take ▸ hat.found _ hle)
    refine ⟨_, segment_mem_lacks hk hmissing hparent, s.remarks [], _,
      (List.replicate k (s.remarks [])).flatten, .segment missing parent, ?_, ?_⟩
    · rw [hbelow, List.append_assoc, List.singleton_append]
    · intro remark hremark
      rcases List.mem_append.1 hremark with hmem | hmem
      · exact hmem
      · obtain ⟨remarks, hremarks, hmem⟩ := List.mem_flatten.1 hmem
        rwa [List.eq_of_mem_replicate hremarks] at hmem
  · obtain ⟨message, hblames, hfailure⟩ := Xml.Stream.extract_of_not_start path hroot
    rw [hfailure]
    have hreports : ∃ lack ∈ lacks root path, Reports s lack message := by
      cases hblames with
      | noTag _ => exact ⟨_, List.mem_cons_self, .start _⟩
      | endTag _ _ => exact ⟨_, List.mem_cons_self, .start _⟩
      | otherRoot _ _ _ => exact ⟨_, List.mem_cons_of_mem _ List.mem_cons_self, .root _ _ _⟩
      | segment hfirst hname _ _ _ => exact absurd ⟨_, _, hfirst, hname⟩ hroot
    obtain ⟨lack, hlack, hreports⟩ := hreports
    exact ⟨lack, hlack, [], message, [], hreports, rfl, fun _ hremark => nomatch hremark⟩

end

theorem firstLiteral?_logged (lack : Lack) :
    Text.firstLiteral? lack.logged = some lack.opening :=
  Text.firstLiteral?_quoted _ _

theorem firstLiteral?_warning {o : Options} (hcategory : '"' ∉ o.logCategory.toList) (lack : Lack) :
    Text.firstLiteral? (o.warning lack.logged) = some lack.opening := by
  have hbefore : '"' ∉ ("qCWarning(" ++ o.logCategory ++ ") << ").toList := by simpa using hcategory
  rw [Options.warning, String.append_assoc, Text.firstLiteral?_append hbefore, Lack.logged,
    String.append_assoc]
  exact Text.firstLiteral?_quoted _ _

/-- **Emitted code and the search for records fail alike.** The warnings with a failure behind them
are those about the start of the document, its root and the names between the first and the last
one. A search that fails tells of one of these, with the same names, and starts as the warning does:
with what its first literal denotes. -/
theorem body_warns (spec : Specification) (o : Options) (root : String) (path : List String) :
    failingOf (body (assembleEntry spec) o (root :: path)) =
        (lacks root path).reverse.map (Lack.warning o) ∧
      (∀ lack : Lack, Text.firstLiteral? lack.logged = some lack.opening ∧
        ('"' ∉ o.logCategory.toList →
          Text.firstLiteral? (o.warning lack.logged) = some lack.opening)) ∧
      ∀ s : Xml.Stream, (s.extract (root :: path)).ok = false →
        ∃ lack ∈ lacks root path, ∃ before diagnostic after, Reports s lack diagnostic ∧
          lack.opening.toList <+: diagnostic.toList ∧
          (s.extract (root :: path)).diagnostics = before ++ diagnostic :: after ∧
          ∀ remark ∈ before ++ after, remark ∈ s.remarks [] := by
  refine ⟨failingOf_body o (failingOf_assembleEntry spec) root path, fun lack =>
    ⟨firstLiteral?_logged lack, fun hcategory => firstLiteral?_warning hcategory lack⟩,
    fun s hok => ?_⟩
  obtain ⟨lack, hlack, before, diagnostic, after, hreports, hdiagnostics, hremarks⟩ :=
    reports_of_not_ok hok
  obtain ⟨rest, hopening⟩ := hreports.eq_opening_append
  have hprefix : lack.opening.toList <+: diagnostic.toList := by
    rw [hopening, String.toList_append]
    exact List.prefix_append _ _
  exact ⟨lack, hlack, before, diagnostic, after, hreports, hprefix, hdiagnostics, hremarks⟩

/-- A name with quotes is missing from a document that ends too early. -/
theorem body_warns_quoted :
    let path := ["\"b\"", "c"]
    let s := Extractor.Xml.Stream.read "<a><b>"
    '"' ∉ ({} : Options).logCategory.toList ∧ (s.extract ("a" :: path)).ok = false ∧
      Text.firstLiteral? (({} : Options).warning (Lack.segment "\"b\"" "a").logged) =
        some "Expected '\"b\"' inside 'a' at XML line" ∧
      ∃ lack ∈ lacks "a" path, ∃ before diagnostic after, Reports s lack diagnostic ∧
        lack.opening.toList <+: diagnostic.toList ∧
        (s.extract ("a" :: path)).diagnostics = before ++ diagnostic :: after ∧
        ∀ remark ∈ before ++ after, remark ∈ s.remarks [] := by
  intro path s
  have hcategory : '"' ∉ ({} : Options).logCategory.toList := by decide
  have hok : (s.extract ("a" :: path)).ok = false := by decide +kernel
  obtain ⟨-, hliteral, hfails⟩ := body_warns hooked {} "a" path
  exact ⟨hcategory, hok, (hliteral (.segment "\"b\"" "a")).2 hcategory, hfails s hok⟩

end Xml

end Extractor.Parser
