import Extractor.Proofs.Code.Guard
/-!
# Indentation agrees with nesting

Indenting the lines of regular statements puts every line at the depth that it has in the trees
(`indent_linesOf`). Between two statements the state of the indentation always stands at the depth
of both, with nothing owed to a guard: this is what `Prints` says, and what composes.
-/

namespace Extractor

namespace Layout

open Text

/-- Nothing is owed to a guard, and the next line is written at this depth unless it closes a
block. -/
structure State.Stands (s : State) (depth : Nat) : Prop where
  owed : s.owed = 0
  depth : (if s.opened then s.depth + 1 else s.depth) = depth

/-- The lines as the indentation sees them. -/
def trimmed (lines : List String) : List (List Char) := lines.map fun line => trimChars line.toList

/-- From a state that stands at one depth, these lines are written as these rows, and leave a
state that stands at the other. -/
def Prints (before : Nat) (lines : List String) (rows : List (Nat × List Char)) (after : Nat) :
    Prop :=
  ∀ unit s, State.Stands s before →
    indentFrom unit s (trimmed lines) = rows.map (fun row => indentLine unit row.1 row.2) ∧
      State.Stands ((trimmed lines).foldl State.next s) after

section

variable {before middle after depth : Nat} {line guard statement : String} {xs ys : List String}
  {first : Nat × List Char} {rows rows' : List (Nat × List Char)} {text : List Char}

theorem indentFrom_append (unit : Nat) (s : State) (xs ys : List (List Char)) :
    indentFrom unit s (xs ++ ys) =
      indentFrom unit s xs ++ indentFrom unit (xs.foldl State.next s) ys := by
  induction xs generalizing s with
  | nil => rfl
  | cons line xs ih =>
    rw [List.cons_append, indentFrom, ih, List.foldl_cons]
    rfl

theorem Prints.nil : Prints depth [] [] depth := fun _ _ hs => ⟨rfl, hs⟩

theorem Prints.append (hxs : Prints before xs rows middle) (hys : Prints middle ys rows' after) :
    Prints before (xs ++ ys) (rows ++ rows') after := by
  intro unit s hs
  obtain ⟨hrows, hmiddle⟩ := hxs unit s hs
  obtain ⟨hrows', hafter⟩ := hys unit _ hmiddle
  unfold trimmed at *
  rw [List.map_append, indentFrom_append, List.map_append, List.foldl_append, hrows, hrows']
  exact ⟨rfl, hafter⟩

theorem Prints.cons (hline : Prints before [line] [first] middle)
    (hys : Prints middle ys rows after) : Prints before (line :: ys) (first :: rows) after :=
  hline.append hys

/-! ## One line -/

theorem closesBlock_eq (text : List Char) : closesBlock text = (text.head? == some '\x7d') := by
  cases text with
  | nil => rfl
  | cons c text => simp [closesBlock, List.isPrefixOf_cons_cons, eq_comm]

theorem isOpenGuard_of_opensBlock (h : opensBlock text = true) : isOpenGuard text = false := by
  simp [isOpenGuard, h]

theorem isOpenGuard_of_isComment (h : isComment text = true) : isOpenGuard text = false := by
  simp [isOpenGuard, h]

theorem State.Stands.depthOf {s : State} (hs : s.Stands depth) (text : List Char) :
    s.depthOf text = depth - (closesBlock text).toNat := by
  unfold State.depthOf
  rw [hs.depth]
  cases closesBlock text <;> rfl

/-- A line that is no guard moves what follows by what it closes and opens. -/
theorem prints_line (line : String) (depth : Nat)
    (hguard : isOpenGuard (trimChars line.toList) = false) :
    Prints (depth + (closesBlock (trimChars line.toList)).toNat) [line] [row depth line]
      (depth + (opensBlock (trimChars line.toList)).toNat) := by
  intro unit s hs
  unfold trimmed row
  rw [List.map_singleton]
  generalize trimChars line.toList = text at *
  have hdepth : s.depthOf text = depth := by
    rw [hs.depthOf, Nat.add_sub_cancel]
  have hnext : s.next text = ⟨depth, 0, opensBlock text⟩ := by
    simp [State.next, hdepth, hguard, hs.owed]
  constructor
  · rw [indentFrom, hdepth]
    rfl
  · rw [List.foldl_cons, List.foldl_nil, hnext]
    refine ⟨rfl, ?_⟩
    cases opensBlock text <;> rfl

theorem Plain.prints (h : Plain (trimChars line.toList)) :
    Prints depth [line] [row depth line] depth := by
  have hline := prints_line line depth h.guard
  rwa [h.closes, h.opens] at hline

/-- A guard moves the line behind it, and no other one. -/
theorem prints_guarded (hguard : OpenGuard (trimChars guard.toList))
    (hplain : Plain (trimChars statement.toList)) (hne : trimChars statement.toList ≠ [])
    (hcomment : isComment (trimChars statement.toList) = false) :
    Prints depth [guard, statement] [row depth guard, row (depth + 1) statement] depth := by
  intro unit s hs
  unfold trimmed row
  rw [List.map_cons, List.map_singleton]
  generalize trimChars guard.toList = guard at *
  generalize trimChars statement.toList = text at *
  have hopens : opensBlock guard = false := by
    by_contra hopens
    have hnot := isOpenGuard_of_opensBlock (by simpa using hopens)
    exact Bool.false_ne_true (hnot.symm.trans hguard.guard)
  have hdepth : s.depthOf guard = depth := by
    rw [hs.depthOf, hguard.closes]
    rfl
  have hnext : s.next guard = ⟨depth + 1, 1, false⟩ := by
    simp [State.next, hdepth, hguard.guard, hs.owed, hopens]
  have hdepth' : State.depthOf ⟨depth + 1, 1, false⟩ text = depth + 1 := by
    simp [State.depthOf, hplain.closes]
  have hnext' : State.next ⟨depth + 1, 1, false⟩ text = ⟨depth, 0, false⟩ := by
    simp [State.next, hdepth', hplain.guard, hplain.opens, hne, hcomment]
  constructor
  · rw [indentFrom, indentFrom, indentFrom, hdepth, hnext, hdepth']
    rfl
  · rw [List.foldl_cons, List.foldl_cons, List.foldl_nil, hnext, hnext']
    exact ⟨rfl, rfl⟩

/-! ## Heads and closing braces -/

theorem opensBlock_trimChars (h : line.toList.getLast? = some '\x7b') :
    opensBlock (trimChars line.toList) = true := by
  obtain ⟨front, hfront⟩ := List.getLast?_eq_some_iff.1 h
  unfold opensBlock
  rw [hfront, trimChars_append_of_not_blank (by decide), isSuffixOf_singleton,
    List.getLast?_concat, beq_self_eq_true]

/-- A head opens a block, and closes the one before it if it looks so. -/
theorem prints_head (line : String) (depth : Nat) (hopens : line.toList.getLast? = some '\x7b') :
    Prints (depth + (closesBlock (trimChars line.toList)).toNat) [line] [row depth line]
      (depth + 1) := by
  have hopens := opensBlock_trimChars hopens
  have hline := prints_line line depth (isOpenGuard_of_opensBlock hopens)
  rwa [hopens] at hline

theorem prints_close : Prints (depth + 1) ["\x7d"] [row depth "\x7d"] depth :=
  prints_line "\x7d" depth (by decide +kernel)

end

end Layout

namespace Stmt

open Layout Text

theorem closesBlock_blockHead (head : String) :
    closesBlock (trimChars (head ++ " \x7b").toList) = closesBlock (trimChars head.toList) := by
  rw [closesBlock_eq, closesBlock_eq, head?_trimChars, head?_trimChars, String.toList_append,
    List.find?_append]
  cases head.toList.find? (!isBlank ·) <;> rfl

theorem closesBlock_armHead (isFirst : Bool) (condition : String) :
    closesBlock (trimChars (armHead isFirst condition).toList) = !isFirst := by
  rw [closesBlock_eq, head?_trimChars, armHead, String.toList_append, String.toList_append,
    List.find?_append, List.find?_append]
  cases isFirst <;> rfl

theorem getLast?_armHead (isFirst : Bool) (condition : String) :
    (armHead isFirst condition).toList.getLast? = some '\x7b' := by
  simp [armHead]

theorem trimChars_of_mem_codeLines {text line : String} (h : line ∈ codeLines text) :
    trimChars line.toList = line.toList := by
  obtain ⟨piece, -, rfl⟩ := List.mem_map.1 h
  rw [toList_trim, trimChars_trimChars]

/-! ## Statements -/

theorem prints_code {lines : List String} {depth : Nat}
    (h : ∀ line ∈ lines, Plain (trimChars line.toList)) :
    Prints depth lines (lines.map (row depth)) depth := by
  induction lines with
  | nil => exact .nil
  | cons line lines ih =>
    rw [List.forall_mem_cons] at h
    exact h.1.prints.cons (ih h.2)

theorem plain_comment {text : String} (h : opensBlock (trimChars ("// " ++ text).toList) = false) :
    Plain (trimChars ("// " ++ text).toList) := by
  have htext : trimChars ("// " ++ text).toList = "//".toList ++ dropBlankEnd (" " ++ text).toList := by
    rw [← trimChars_append _ (by decide) (by decide), String.toList_append, String.toList_append]
    rfl
  refine ⟨?_, h, isOpenGuard_of_isComment ?_⟩
  · rw [htext]
    rfl
  · rw [htext]
    rfl

mutual

/-- A statement leaves the depth where it was. -/
theorem prints_stmt (depth : Nat) : ∀ stmt : Stmt, stmt.Regular →
    Prints depth stmt.lines (stmt.rows depth) depth
  | .code text, h => by
    unfold Regular at h
    unfold lines rows
    refine prints_code fun line hline => ?_
    rw [trimChars_of_mem_codeLines hline]
    exact h line hline
  | .block head body, h => by
    unfold Regular at h
    obtain ⟨hhead, hbody⟩ := h
    have hline := prints_head (head ++ " \x7b") depth (by simp)
    rw [closesBlock_blockHead, hhead] at hline
    unfold lines rows
    exact (hline.cons (prints_stmts (depth + 1) body hbody)).append prints_close
  | .choice arms otherwise, h => by
    unfold Regular at h
    obtain ⟨hne, harms, hotherwise⟩ := h
    unfold lines rows
    refine ((prints_arms depth true arms (fun _ => hne) harms).append ?_).append prints_close
    match otherwise with
    | none => exact .nil
    | some body =>
      have hline := prints_head "\x7d else \x7b" depth (by decide)
      exact Prints.cons hline (prints_stmts (depth + 1) body hotherwise)
  | .guarded guard statement, h => by
    unfold Regular at h
    obtain ⟨hguard, line, hline, hne, hcomment, hplain⟩ := h
    have htrim : trimChars line.toList = line.toList :=
      trimChars_of_mem_codeLines (by rw [hline]; exact List.mem_cons_self)
    rw [← trimChars_oneLine] at hguard
    rw [← htrim] at hcomment hplain
    unfold lines rows
    rw [hline]
    refine prints_guarded hguard hplain ?_ hcomment
    rwa [htrim, ne_eq, String.toList_eq_nil_iff]
  | .comment text, h => by
    unfold Regular at h
    unfold lines rows
    exact (plain_comment h).prints
  | .blank, _ => by
    unfold lines rows
    exact Plain.prints (by decide +kernel)

theorem prints_stmts (depth : Nat) : ∀ stmts : List Stmt, RegularAll stmts →
    Prints depth (linesOf stmts) (rowsOf depth stmts) depth
  | [], _ => by
    unfold linesOf rowsOf
    exact .nil
  | stmt :: rest, h => by
    unfold RegularAll at h
    unfold linesOf rowsOf
    exact (prints_stmt depth stmt h.1).append (prints_stmts depth rest h.2)

/-- An arm stays open for what follows it, and only the first one has none before it. -/
theorem prints_arms (depth : Nat) (isFirst : Bool) : ∀ arms : List (String × List Stmt),
    (isFirst = true → arms ≠ []) → RegularArms arms →
      Prints (if isFirst then depth else depth + 1) (armLines isFirst arms)
        (armRows depth isFirst arms) (depth + 1)
  | [], hne, _ => by
    cases isFirst with
    | true => exact absurd rfl (hne rfl)
    | false =>
      unfold armLines armRows
      exact .nil
  | (condition, body) :: rest, _, h => by
    unfold RegularArms at h
    have hhead : Prints (if isFirst then depth else depth + 1) [armHead isFirst condition]
        [row depth (armHead isFirst condition)] (depth + 1) := by
      have hline := prints_head _ depth (getLast?_armHead isFirst condition)
      rw [closesBlock_armHead] at hline
      cases isFirst <;> exact hline
    have hrest := prints_arms depth false rest (fun hfirst => nomatch hfirst) h.2
    unfold armLines armRows
    exact (hhead.cons (prints_stmts (depth + 1) body h.1)).append hrest

end

/-- **Indentation agrees with nesting.** Seen as lines alone, regular statements are indented as
their trees say. Every guard made from a condition can stand in them. -/
theorem indent_linesOf (unit depth : Nat) :
    (∀ stmts, RegularAll stmts →
        indent unit depth (linesOf stmts) = printed unit (rowsOf depth stmts)) ∧
      ∀ condition statement, (onlyIf condition statement).Regular ↔ SingleLine statement := by
  constructor
  · intro stmts h
    have hstart : (State.ofDepth depth).Stands depth := ⟨rfl, rfl⟩
    obtain ⟨hrows, -⟩ := prints_stmts depth stmts h unit _ hstart
    unfold trimmed at hrows
    rw [indent, hrows, printed, List.flatMap_map]
  · intro condition statement
    unfold onlyIf Regular
    exact and_iff_right (openGuard_oneLine condition)

/-- A guard with a condition on two lines, in a block and before a choice. -/
theorem indent_linesOf_nested :
    let stmts : List Stmt :=
      [.block "for (x : xs)"
        [.onlyIf "a\n  && b" "continue;", .choice [("c", [.code "f();\n\ng();"]), ("d", [])]
          (some [.comment "done"])], .blank]
    RegularAll stmts ∧
      indent 4 1 (linesOf stmts) =
        "    for (x : xs) \x7b\n        if (a && b)\n            continue;\n        if (c) \x7b\n" ++
        "            f();\n\n            g();\n        \x7d else if (d) \x7b\n" ++
        "        \x7d else \x7b\n            // done\n        \x7d\n    \x7d\n\n" := by
  intro stmts
  have hguarded : (onlyIf "a\n  && b" "continue;").Regular :=
    ((indent_linesOf 4 1).2 _ _).2 ⟨"continue;", by decide +kernel⟩
  have hcode : ∀ line ∈ codeLines "f();\n\ng();", Plain line.toList := by decide +kernel
  have hcomment : (comment "done").Regular := by
    unfold Regular
    decide +kernel
  have hregular : RegularAll stmts := by
    refine ⟨⟨by decide +kernel, hguarded, ⟨?_, ?_, ?_⟩, trivial⟩, trivial, trivial⟩
    · exact List.cons_ne_nil _ _
    · exact ⟨⟨hcode, trivial⟩, trivial, trivial⟩
    · exact ⟨hcomment, trivial⟩
  refine ⟨hregular, ?_⟩
  rw [(indent_linesOf 4 1).1 stmts hregular]
  decide +kernel

/-- White space hides a brace from the text of a head or of a comment, but not from the
indentation. -/
theorem indent_ne_printed :
    (closesBlock " \x7d".toList = false ∧
      indent 4 1 (linesOf [.block " \x7d" []]) ≠ printed 4 (rowsOf 1 [.block " \x7d" []])) ∧
    opensBlock "// x \x7b ".toList = false ∧ Plain "y;".toList ∧
      indent 4 1 (linesOf [.comment "x \x7b ", .code "y;"]) ≠
        printed 4 (rowsOf 1 [.comment "x \x7b ", .code "y;"]) := by
  decide +kernel

end Stmt

end Extractor
