import Extractor.Parser.Emit
import Extractor.Proofs.Code.Indentation
import Extractor.Proofs.Text.Lines
/-!
# Code in a function

Wrapping the code in a function puts lines before and behind it and leaves the lines in between as
they are, whatever code a specification gives (`code_function`): behind the head of the function the
indentation stands where it stands behind the banner of bare code that is one level deeper, and from
there on both see the same lines.
-/

namespace Extractor

namespace Layout

open Text

section

variable {s t : State} {depth : Nat} {lines more : List String} {rows : List (Nat × List Char)}

theorem trimmed_append (lines more : List String) :
    trimmed (lines ++ more) = trimmed lines ++ trimmed more := List.map_append

/-- What is written from a state hangs on the depth it stands at alone. -/
theorem indentFrom_eq_of_stands (hs : s.Stands depth) (ht : t.Stands depth) (unit : Nat)
    (lines : List (List Char)) : indentFrom unit s lines = indentFrom unit t lines := by
  cases lines with
  | nil => rfl
  | cons line lines =>
    have hdepth : s.depthOf line = t.depthOf line := (hs.depthOf line).trans (ht.depthOf line).symm
    have hnext : s.next line = t.next line := by
      unfold State.next
      rw [hdepth, hs.owed, ht.owed]
    rw [indentFrom, indentFrom, hdepth, hnext]

/-- Rows with a break behind each, as lines. -/
theorem ofList_flatMap_break (rows : List (List Char)) :
    String.ofList (rows.flatMap (· ++ ['\n'])) = unlines (rows.map String.ofList) := by
  rw [← String.toList_inj, String.toList_ofList, toList_unlines, List.flatMap_map]
  simp only [String.toList_ofList]

/-- Lines that are written as these rows wherever they stand at a depth can be taken off the front;
what follows is written as from any state that stands where they end. -/
theorem indent_append_of_prints {before after : Nat} (h : Prints before lines rows after)
    (hs : s.Stands after) (unit : Nat) (more : List String) :
    indent unit before (lines ++ more) =
      unlines (rows.map fun row => String.ofList (indentLine unit row.1 row.2)) ++
        String.ofList ((indentFrom unit s (trimmed more)).flatMap (· ++ ['\n'])) := by
  obtain ⟨hrows, hafter⟩ := h unit (State.ofDepth before) ⟨rfl, rfl⟩
  rw [indent, ← trimmed, trimmed_append, indentFrom_append, hrows, List.flatMap_append,
    String.ofList_append, ofList_flatMap_break, List.map_map, indentFrom_eq_of_stands hs hafter]
  rfl

end

/-- Code at a depth, as it is printed. -/
def atDepth (depth : Nat) (line : String) : String := String.ofList (indentLine 4 depth line.toList)

theorem ofList_indentLine_row {line : String} (h : trimChars line.toList = line.toList)
    (depth : Nat) :
    String.ofList (indentLine 4 (row depth line).1 (row depth line).2) = atDepth depth line := by
  rw [row, h, atDepth]

theorem not_mem_atDepth {c : Char} {line : String} (depth : Nat) (hc : c ≠ ' ')
    (h : c ∉ line.toList) : c ∉ (atDepth depth line).toList := by
  unfold atDepth indentLine
  rw [String.toList_ofList]
  split
  · exact List.not_mem_nil
  · rw [List.mem_append, List.mem_replicate, not_or]
    exact ⟨fun hspace => hc hspace.2, h⟩

end Layout

namespace Parser

open Layout Stmt Text

/-! ## The options of a body -/

section

variable (spec : Specification) (o : Options) (name : Option String) (depth : Option Nat)

theorem scan_with (entry : List Stmt) (path : List String) (parent : String) (index : Nat) :
    Xml.scan parent index entry { o with functionName := name, baseDepth := depth } path =
      Xml.scan parent index entry o path := by
  induction path generalizing parent index with
  | nil => rfl
  | cons segment rest ih =>
    cases rest with
    | nil => rfl
    | cons next rest =>
      rw [Xml.scan, Xml.scan, ih]
      rfl

/-- Introduction and body do not hang on the function that they stand in. -/
theorem content_with :
    content spec { o with functionName := name, baseDepth := depth } = content spec o := by
  have hxml (path : List String) (entry : List Stmt) :
      Xml.body entry { o with functionName := name, baseDepth := depth } path =
        Xml.body entry o path := by
    cases path with
    | nil => rfl
    | cons root rest =>
      rw [Xml.body, Xml.body, scan_with]
      rfl
  unfold content bodyFor
  cases spec.format with
  | xml => rw [hxml]
  | json => rfl

end

/-! ## Banner and head -/

def sourceLine : String := "// Source code generated by bibsearch-codegen"

def inputLine (inputName : String) : String :=
  "// using information from configuration file '" ++ inputName ++ "'"

def headLine (name : String) (format : Format) : String := functionHead name format ++ " \x7b"

def resultLine : String := "QVector<QSharedPointer<Entry>> result;"

/-- The banner as it is printed. -/
def bannerLines (depth : Nat) (inputName : String) : List String :=
  [atDepth depth sourceLine, atDepth depth (inputLine inputName), ""]

theorem linesOf_banner (o : Options) :
    linesOf (banner o) = [sourceLine, inputLine o.inputName, ""] := by
  have hstart : "// " ++ "using information from configuration file '" =
      "// using information from configuration file '" := by decide
  have hinput : "// " ++ ("using information from configuration file '" ++ o.inputName ++ "'") =
      inputLine o.inputName := by
    unfold inputLine
    rw [← String.append_assoc, ← String.append_assoc, hstart]
  rw [banner, linesOf, linesOf, linesOf, linesOf, lines, lines, lines, hinput]
  rfl

/-- A line between two characters that are not blank. -/
theorem trimChars_of_ends {line : String} {first last : Char} {inner : List Char}
    (h : line.toList = first :: (inner ++ [last])) (hfirst : isBlank first = false)
    (hlast : isBlank last = false) : trimChars line.toList = line.toList := by
  refine trimChars_eq_self ?_ ?_
  · rw [h, List.head?_cons, Option.any_some, hfirst]
  · rw [h, ← List.cons_append, List.getLast?_concat, Option.any_some, hlast]

theorem toList_inputLine (inputName : String) : ∃ inner,
    (inputLine inputName).toList = '/' :: ('/' :: inner ++ ['\'']) := by
  have hstart : "// using information from configuration file '".toList =
      '/' :: '/' :: " using information from configuration file '".toList := by decide
  have hend : "'".toList = ['\''] := by decide
  refine ⟨" using information from configuration file '".toList ++ inputName.toList, ?_⟩
  unfold inputLine
  rw [String.toList_append, String.toList_append, hstart, hend]
  simp only [List.cons_append]

theorem toList_headLine (name : String) (format : Format) : ∃ inner,
    (headLine name format).toList = 'Q' :: (inner ++ ['\x7b']) := by
  have hstart : "QVector<QSharedPointer<Entry>> ".toList =
      'Q' :: "Vector<QSharedPointer<Entry>> ".toList := by decide
  have hend : " \x7b".toList = [' '] ++ ['\x7b'] := by decide
  refine ⟨"Vector<QSharedPointer<Entry>> ".toList ++ name.toList ++ "(const QByteArray &".toList ++
    format.parameter.toList ++ ", bool *ok)".toList ++ [' '], ?_⟩
  unfold headLine functionHead
  rw [String.toList_append, String.toList_append, String.toList_append, String.toList_append,
    String.toList_append, hstart, hend]
  simp only [List.cons_append, List.append_assoc]

theorem trimChars_inputLine (inputName : String) :
    trimChars (inputLine inputName).toList = (inputLine inputName).toList := by
  obtain ⟨inner, h⟩ := toList_inputLine inputName
  exact trimChars_of_ends h (by decide) (by decide)

theorem trimChars_headLine (name : String) (format : Format) :
    trimChars (headLine name format).toList = (headLine name format).toList := by
  obtain ⟨inner, h⟩ := toList_headLine name format
  exact trimChars_of_ends h (by decide) (by decide)

theorem plain_inputLine (inputName : String) : Plain (trimChars (inputLine inputName).toList) := by
  rw [trimChars_inputLine]
  obtain ⟨inner, h⟩ := toList_inputLine inputName
  have hcomment : isComment (inputLine inputName).toList = true := by
    rw [h]
    rfl
  refine ⟨by rw [h]; rfl, ?_, isOpenGuard_of_isComment hcomment⟩
  rw [opensBlock, isSuffixOf_singleton, h, ← List.cons_append, List.getLast?_concat]
  rfl

theorem prints_banner (o : Options) (depth : Nat) :
    Prints depth (linesOf (banner o))
      [row depth sourceLine, row depth (inputLine o.inputName), row depth ""] depth := by
  have hsource : Plain (trimChars sourceLine.toList) := by decide
  have hblank : Plain (trimChars "".toList) := by decide
  rw [linesOf_banner]
  exact hsource.prints.cons ((plain_inputLine _).prints.cons hblank.prints)

/-- The head opens the body, and the first line of the body leaves the indentation as it is. -/
theorem prints_head_result (name : String) (format : Format) (depth : Nat) :
    Prints depth [headLine name format, resultLine]
      [row depth (headLine name format), row (depth + 1) resultLine] (depth + 1) := by
  have hresult : Plain (trimChars resultLine.toList) := by decide
  obtain ⟨inner, h⟩ := toList_headLine name format
  have hhead := prints_head (headLine name format) depth
    (by rw [h, ← List.cons_append, List.getLast?_concat])
  rw [trimChars_headLine, closesBlock_eq, h] at hhead
  exact hhead.cons hresult.prints

/-! ## Both texts -/

theorem code_some (spec : Specification) (o : Options) (name : String) (depth : Nat) :
    (emit spec { o with functionName := some name, baseDepth := some depth }).code =
      indent 4 depth (linesOf (banner o) ++ [headLine name spec.format, resultLine] ++
        (linesOf (content spec o) ++ ["", "return result;", "\x7d"])) := by
  have hresult : codeLines resultLine = [resultLine] := by decide
  have hreturn : codeLines "return result;" = ["return result;"] := by decide
  have hstmts : linesOf [.block (functionHead name spec.format) (.code resultLine ::
      content spec o ++ [.blank, .code "return result;"])] =
        [headLine name spec.format, resultLine] ++
          (linesOf (content spec o) ++ ["", "return result;", "\x7d"]) := by
    rw [linesOf, linesOf, lines, linesOf_append, linesOf, lines, hresult, linesOf, linesOf,
      linesOf, lines, lines, hreturn, List.append_nil]
    simp only [headLine, List.cons_append, List.nil_append, List.append_assoc, List.append_nil]
  rw [List.append_assoc, ← hstmts, ← content_with spec o (some name) (some depth)]
  rfl

theorem code_none (spec : Specification) (o : Options) (depth : Nat) :
    (emit spec { o with functionName := none, baseDepth := some depth }).code =
      indent 4 depth (linesOf (banner o) ++ linesOf (content spec o)) := by
  rw [← content_with spec o none (some depth)]
  rfl

/-- The last lines stand at some depth, which hangs on the code before them. -/
theorem indentFrom_end (s : State) : ∃ inner outer,
    (indentFrom 4 s (trimmed ["", "return result;", "\x7d"])).map String.ofList =
      ["", atDepth inner "return result;", atDepth outer "\x7d"] := by
  have htrimmed : trimmed ["", "return result;", "\x7d"] =
      [[], "return result;".toList, "\x7d".toList] := by decide
  rw [htrimmed]
  exact ⟨_, _, rfl⟩

theorem map_row_banner (depth : Nat) (inputName : String) :
    [row depth sourceLine, row depth (inputLine inputName), row depth ""].map
      (fun row => String.ofList (indentLine 4 row.1 row.2)) = bannerLines depth inputName := by
  have hsource : trimChars sourceLine.toList = sourceLine.toList := by decide
  rw [List.map_cons, List.map_cons, List.map_singleton, ofList_indentLine_row hsource,
    ofList_indentLine_row (trimChars_inputLine inputName)]
  rfl

theorem map_row_head (name : String) (format : Format) (depth : Nat) :
    [row depth (headLine name format), row (depth + 1) resultLine].map
        (fun row => String.ofList (indentLine 4 row.1 row.2)) =
      [atDepth depth (headLine name format), atDepth (depth + 1) resultLine] := by
  have hresult : trimChars resultLine.toList = resultLine.toList := by decide
  rw [List.map_cons, List.map_singleton, ofList_indentLine_row (trimChars_headLine name format),
    ofList_indentLine_row hresult]

theorem not_mem_bannerLines {inputName line : String} {depth : Nat}
    (h : '\n' ∉ inputName.toList) (hline : line ∈ bannerLines depth inputName) :
    '\n' ∉ line.toList := by
  have hinput : '\n' ∉ (inputLine inputName).toList := by
    unfold inputLine
    simp only [String.toList_append, List.mem_append, not_or]
    exact ⟨⟨by decide, h⟩, by decide⟩
  unfold bannerLines at hline
  rcases List.mem_cons.1 hline with rfl | hline
  · exact not_mem_atDepth depth (by decide) (by decide)
  · rcases List.mem_pair.1 hline with rfl | rfl
    · exact not_mem_atDepth depth (by decide) hinput
    · exact List.not_mem_nil

theorem not_mem_headLine {name : String} (h : '\n' ∉ name.toList) (format : Format) :
    '\n' ∉ (headLine name format).toList := by
  have hparameter : '\n' ∉ format.parameter.toList := by cases format <;> decide
  unfold headLine functionHead
  simp only [String.toList_append, List.mem_append, not_or]
  exact ⟨⟨⟨⟨⟨by decide, h⟩, by decide⟩, hparameter⟩, by decide⟩, by decide⟩

/-- The lines of code in a function, around the lines of its body. -/
def functionLines (depth : Nat) (inputName head : String) (body : List String)
    (inner outer : Nat) : List String :=
  bannerLines depth inputName ++ [atDepth depth head, atDepth (depth + 1) resultLine] ++ body ++
    ["", atDepth inner "return result;", atDepth outer "\x7d"]

/-- **A function leaves its body as it is.** Where bare code one level deeper has a banner and then
some lines, the function has a banner, its head, the declaration of the result, the same lines byte
for byte, and the return of the result. -/
theorem code_function (spec : Specification) (o : Options) {name : String} (depth : Nat)
    (hname : '\n' ∉ name.toList) (hinput : '\n' ∉ o.inputName.toList) :
    ∃ body inner outer,
      let wrapped :=
        functionLines depth o.inputName (headLine name spec.format) body inner outer
      let bare := bannerLines (depth + 1) o.inputName ++ body
      (emit spec { o with functionName := some name, baseDepth := some depth }).code =
          unlines wrapped ∧
        (emit spec { o with functionName := none, baseDepth := some (depth + 1) }).code =
          unlines bare ∧
        ∀ line ∈ wrapped ++ bare, '\n' ∉ line.toList := by
  have hstart : (State.ofDepth (depth + 1)).Stands (depth + 1) := ⟨rfl, rfl⟩
  let rows := indentFrom 4 (State.ofDepth (depth + 1)) (trimmed (linesOf (content spec o)))
  obtain ⟨inner, outer, hend⟩ := indentFrom_end
    ((trimmed (linesOf (content spec o))).foldl State.next (State.ofDepth (depth + 1)))
  refine ⟨rows.flatMap fun row => (row.splitOn '\n').map String.ofList, inner, outer, ?_, ?_, ?_⟩
  · have hprints := (prints_banner o depth).append (prints_head_result name spec.format depth)
    rw [code_some, indent_append_of_prints hprints hstart, List.map_append, map_row_banner,
      map_row_head, trimmed_append, indentFrom_append, List.flatMap_append, String.ofList_append,
      ← unlines_pieces, ofList_flatMap_break, hend, ← unlines_append, ← unlines_append,
      ← List.append_assoc, functionLines]
  · rw [code_none, indent_append_of_prints (prints_banner o _) hstart, map_row_banner,
      ← unlines_pieces, ← unlines_append]
  · have hbody : ∀ line ∈ rows.flatMap fun row => (row.splitOn '\n').map String.ofList,
        '\n' ∉ line.toList := by
      intro line hline
      obtain ⟨row, -, hline⟩ := List.mem_flatMap.1 hline
      obtain ⟨piece, hpiece, rfl⟩ := List.mem_map.1 hline
      rw [String.toList_ofList]
      exact not_mem_of_mem_splitOn hpiece
    have hbanner (depth : Nat) : ∀ line ∈ bannerLines depth o.inputName, '\n' ∉ line.toList :=
      fun line => not_mem_bannerLines hinput
    simp only [functionLines, List.forall_mem_append, List.forall_mem_cons]
    refine ⟨⟨⟨⟨hbanner depth, ?_, ?_, ?_⟩, hbody⟩, ?_, ?_, ?_, ?_⟩, hbanner (depth + 1), hbody⟩
    · exact not_mem_atDepth depth (by decide) (not_mem_headLine hname spec.format)
    · exact not_mem_atDepth _ (by decide) (by decide)
    · exact fun _ h => nomatch h
    · exact List.not_mem_nil
    · exact not_mem_atDepth _ (by decide) (by decide)
    · exact not_mem_atDepth _ (by decide) (by decide)
    · exact fun _ h => nomatch h

/-- The introduction ends in a guard with nothing to guard, a hook closes what it did not open, and a
template opens what it does not close. -/
def unbalanced : Specification where
  format := .json
  entriesPath := ["items"]
  introduction := some "while (a)\nif (b)"
  fieldRules := [⟨.symbol "Title", "[]() \x7b\nreturn \x7b\x7bt\x7d\x7d;"⟩]
  valueRules := []
  typeOverrides := []
  entryId := ""
  entryType := ""
  validation := none
  postMapping := some "\x7d \x7d\nelse"
  postFields := none

theorem code_function_unbalanced :
    '\n' ∉ "parse".toList ∧ '\n' ∉ ({} : Options).inputName.toList ∧
      ∃ body inner outer,
        let wrapped := functionLines 1 "<stdin>" (headLine "parse" .json) body inner outer
        let bare := bannerLines 2 "<stdin>" ++ body
        (emit unbalanced { functionName := some "parse", baseDepth := some 1 }).code =
            unlines wrapped ∧
          (emit unbalanced { baseDepth := some 2 }).code = unlines bare ∧
          ∀ line ∈ wrapped ++ bare, '\n' ∉ line.toList :=
  ⟨by decide, by decide,
    code_function unbalanced {} 1 (by decide) (by decide)⟩

end Parser

end Extractor
