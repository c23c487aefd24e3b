import Extractor.Proofs.Xml.Outermost
/-!
# Remarks about a fault

Records are read, and searched for, in loops over the tokens. A loop ends at the end tag of its
record or because the tokens have run out (`Ending`). Behind each loop that leaves no token there
is a remark about the fault of the document, and there are no other such remarks
(`filter_invalid`). So their number is that of the loops that ran out, and one more where the last
token is the end tag of a record (`invalid_remarks`): the remark is made there, too, though reading
has not run into the fault (`invalid_remarks_early`).
-/

namespace Extractor.Xml

/-- How a loop over the tokens has ended. -/
inductive Ending where
  /-- At the end tag of the record, with these tokens behind it. -/
  | closed (behind : List Located)
  | ranOut
  deriving DecidableEq, Repr

namespace Ending

/-- The tokens that the loop has left. -/
def left : Ending → List Located
  | .closed behind => behind
  | .ranOut => []

/-- How reading the record with the given name goes on to its end. -/
def ofReading (name : String) (r : Reading) : List Located → Ending
  | [] => .ranOut
  | t :: rest => if r.endsAt name t.token then .closed rest else ofReading name (r.step t.token) rest

/-- How a record ends whose start tag stands before the given tokens. -/
def ofRecord (name : String) (tokens : List Located) : Ending :=
  ofReading name Reading.empty tokens

end Ending

/-- The endings of the records with the name, and that of the search for them. -/
def endingsOf (name : String) (tokens : List Located) : List Ending :=
  match _h : afterStart? name tokens with
  | none => [.ranOut]
  | some content => .ofRecord name content :: endingsOf name (record name content).2
termination_by tokens.length
decreasing_by
  have h1 := length_of_afterStart? _h
  have h2 := length_recordFrom_le name Reading.empty content
  simp only [record]
  omega

/-- The endings of all loops below an element whose start tag stands before the given tokens, in the
order in which they end. A search for a name ends behind the loops inside it. -/
def endingsBelow (parent : String) : List String → List Located → List Ending
  | [], tokens => [.ofRecord parent tokens]
  | [last], tokens => endingsOf last tokens
  | segment :: next :: path, tokens =>
    match afterStart? segment tokens with
    | some content => endingsBelow segment (next :: path) content ++ [.ranOut]
    | none => [.ranOut]

/-- The endings of all loops that look for the records at a path. -/
def Stream.endings (s : Stream) : List String → List Ending
  | [] => []
  | root :: path =>
    match firstTag? s.tokens with
    | some (tag, behind) =>
      if tag.token.startName? = some root then endingsBelow root path behind else []
    | none => []

/-- How a remark about a fault starts. -/
def invalidMarker : String := "Invalid XML while parsing data at offset "

/-- The diagnostic is a remark about a fault. -/
def Invalid (diagnostic : String) : Prop := invalidMarker.toList <+: diagnostic.toList

instance : DecidablePred Invalid := fun diagnostic =>
  inferInstanceAs (Decidable (invalidMarker.toList <+: diagnostic.toList))

/-! ## How a record ends -/

section

variable {name : String} {r : Reading} {tokens behind : List Located}

theorem left_ofReading (name : String) (r : Reading) (tokens : List Located) :
    (Ending.ofReading name r tokens).left = (recordFrom name r tokens).2 := by
  induction tokens generalizing r with
  | nil => rfl
  | cons t rest ih =>
    rw [Ending.ofReading, recordFrom]
    split
    · rfl
    · exact ih _

theorem left_ofRecord (name : String) (tokens : List Located) :
    (Ending.ofRecord name tokens).left = (record name tokens).2 := left_ofReading _ _ _

theorem length_recordFrom_lt (name : String) (r : Reading) (t : Located) (rest : List Located) :
    (recordFrom name r (t :: rest)).2.length < (t :: rest).length := by
  rw [recordFrom]
  split
  · exact Nat.lt_succ_self _
  · exact Nat.lt_succ_of_le (length_recordFrom_le _ _ _)

/-- **A record is closed if it leaves alone whatever comes behind its end.** -/
theorem ofReading_eq_closed_iff :
    Ending.ofReading name r tokens = .closed behind ↔
      ∀ more, (recordFrom name r (tokens ++ more)).2 = behind ++ more := by
  induction tokens generalizing r with
  | nil =>
    refine iff_of_false Ending.noConfusion fun h => ?_
    -- A record that is still open takes at least one more token.
    have hone := h [default]
    have hlength := length_recordFrom_lt name r default []
    rw [List.nil_append] at hone
    rw [hone, List.length_append] at hlength
    exact Nat.not_lt_of_le (Nat.le_add_left _ _) hlength
  | cons t rest ih =>
    simp only [Ending.ofReading, List.cons_append, recordFrom]
    split
    · constructor
      · intro h more
        cases h
        rfl
      · intro h
        have hbehind := h []
        simp only [List.append_nil] at hbehind
        rw [hbehind]
    · exact ih

/-- The end tag of a record is the one that closes its element. -/
theorem ofRecord_tree (name : String) (content : List Node) (tokens rest : List Located)
    (h : tokens.map Located.token = Node.tokensOf content ++ [.stop name]) :
    Ending.ofRecord name (tokens ++ rest) = .closed rest := by
  refine ofReading_eq_closed_iff.2 fun more => ?_
  have hrecord := record_tree name content tokens (rest ++ more) h
  rw [List.append_assoc]
  exact congrArg Prod.snd hrecord.1

end

namespace Stream

variable {s : Stream}

/-! ## Remarks behind loops -/

theorem invalid_of_mem_remarks {rest : List Located} {remark : String}
    (h : remark ∈ s.remarks rest) : Invalid remark := by
  unfold remarks at h
  split at h
  · rw [List.mem_singleton.1 h, Invalid]
    simp only [String.toList_append, List.append_assoc]
    exact List.prefix_append _ _
  · exact absurd h List.not_mem_nil

theorem filter_remarks (s : Stream) (rest : List Located) :
    (s.remarks rest).filter Invalid = s.remarks rest := by
  rw [List.filter_eq_self]
  exact fun remark h => decide_eq_true (invalid_of_mem_remarks h)

theorem not_invalid_of_structural {diagnostic : String} (h : Structural diagnostic) :
    ¬ Invalid diagnostic := by
  intro hinvalid
  obtain ⟨marker, hmarker, hprefix⟩ := h
  have hcompare := List.prefix_or_prefix_of_prefix hprefix hinvalid
  rcases List.mem_pair.1 hmarker with rfl | rfl <;> revert hcompare <;> decide +kernel

theorem filter_structural {diagnostic : String} (h : Structural diagnostic) :
    [diagnostic].filter Invalid = [] := by
  rw [List.filter_eq_nil_iff]
  intro other hother
  rw [List.mem_singleton.1 hother, decide_eq_true_iff]
  exact not_invalid_of_structural h

theorem length_remarks (s : Stream) (rest : List Located) :
    (s.remarks rest).length = if s.stop.isSome ∧ rest = [] then 1 else 0 := by
  unfold remarks
  cases s.stop <;> cases rest <;> simp

/-- What is remarked behind the loops with these endings. -/
def remarksBehind (s : Stream) (endings : List Ending) : List String :=
  endings.flatMap fun ending => s.remarks ending.left

theorem remarksBehind_append (s : Stream) (endings others : List Ending) :
    s.remarksBehind (endings ++ others) = s.remarksBehind endings ++ s.remarksBehind others :=
  List.flatMap_append

theorem remarksBehind_ranOut (s : Stream) : s.remarksBehind [.ranOut] = s.remarks [] :=
  List.flatMap_singleton _ _

theorem filter_remarksBehind (s : Stream) (endings : List Ending) :
    (s.remarksBehind endings).filter Invalid = s.remarksBehind endings := by
  simp only [remarksBehind, List.filter_flatMap, filter_remarks]

theorem endingsOf_of_none {name : String} {tokens : List Located}
    (h : afterStart? name tokens = none) : endingsOf name tokens = [.ranOut] := by
  rw [endingsOf]
  split
  · rfl
  · next content hsome => cases h.symm.trans hsome

theorem endingsOf_of_some {name : String} {tokens content : List Located}
    (h : afterStart? name tokens = some content) :
    endingsOf name tokens = .ofRecord name content :: endingsOf name (record name content).2 := by
  rw [endingsOf]
  split
  · next hnone => cases h.symm.trans hnone
  · next content' hsome =>
    cases h.symm.trans hsome
    rfl

theorem diagnostics_allRecords (s : Stream) (last : String) (tokens : List Located) :
    (s.allRecords last tokens).diagnostics = s.remarksBehind (endingsOf last tokens) := by
  induction tokens using allRecords.induct s last with
  | case1 tokens hnone => rw [allRecords_of_none hnone, endingsOf_of_none hnone,
      remarksBehind_ranOut]
  | case2 tokens content hsome _ _ _ ih =>
    rw [allRecords_of_some hsome, endingsOf_of_some hsome, remarksBehind, List.flatMap_cons,
      left_ofRecord]
    exact congrArg _ ih

theorem filter_below (s : Stream) (parent : String) (path : List String) (tokens : List Located) :
    (s.below parent path tokens).diagnostics.filter Invalid =
      s.remarksBehind (endingsBelow parent path tokens) := by
  induction path generalizing parent tokens with
  | nil =>
    rw [below, oneRecord, endingsBelow, remarksBehind, List.flatMap_singleton, left_ofRecord]
    exact filter_remarks s _
  | cons segment path ih =>
    cases path with
    | nil => rw [below, diagnostics_allRecords, filter_remarksBehind, endingsBelow]
    | cons next path =>
      unfold below endingsBelow
      cases hafter : afterStart? segment tokens with
      | none =>
        have hmissing := filter_structural (structural_expected (segment ++ ("' inside '" ++
          (parent ++ ("' at XML line " ++ toString s.lastLine)))))
        simp only [Extraction.remark, List.filter_append, filter_remarks, remarksBehind_ranOut,
          String.append_assoc, hmissing, List.append_nil]
      | some content =>
        simp only [Extraction.remark, List.filter_append, filter_remarks, remarksBehind_append,
          remarksBehind_ranOut, ih]

/-- **The remarks about a fault are those behind the loops.** -/
theorem filter_invalid (s : Stream) (path : List String) :
    (s.extract path).diagnostics.filter Invalid = s.remarksBehind (s.endings path) := by
  cases path with
  | nil => rfl
  | cons root path =>
    by_cases h : ∃ tag behind, FirstTag s.tokens tag behind ∧ tag.token.startName? = some root
    · obtain ⟨tag, behind, hfirst, hname⟩ := h
      rw [extract_of_start path hfirst hname, filter_below, endings,
        firstTag?_eq_some_iff.2 hfirst]
      simp only [hname, if_true]
    · obtain ⟨message, hblames, hfailure⟩ := extract_of_not_start path h
      have hnone : s.endings (root :: path) = [] := by
        rw [endings]
        split
        · next tag behind hfirst =>
          exact if_neg fun hname => h ⟨tag, behind, firstTag?_eq_some_iff.1 hfirst, hname⟩
        · rfl
      rw [hfailure, hnone, Extraction.failure, filter_structural hblames.structural]
      rfl

/-! ## Their number -/

theorem length_remarksBehind (s : Stream) (endings : List Ending) :
    (s.remarksBehind endings).length =
      if s.stop.isSome then endings.count .ranOut + endings.count (.closed []) else 0 := by
  induction endings with
  | nil => simp [remarksBehind]
  | cons ending others ih =>
    rw [remarksBehind, List.flatMap_cons, List.length_append, length_remarks, ← remarksBehind, ih]
    cases hstop : s.stop with
    | none => simp
    | some stop =>
      cases ending with
      | ranOut => simp [Ending.left]; omega
      | closed behind =>
        by_cases hbehind : behind = []
        · subst hbehind
          simp [Ending.left]
          omega
        · simp [Ending.left, hbehind]

theorem count_closed_nil_endingsOf (name : String) (tokens : List Located) :
    (endingsOf name tokens).count (.closed []) ≤ 1 := by
  induction tokens using endingsOf.induct name with
  | case1 tokens hnone =>
    rw [endingsOf_of_none hnone]
    exact Nat.zero_le 1
  | case2 tokens content hsome ih =>
    rw [endingsOf_of_some hsome]
    by_cases hlast : Ending.ofRecord name content = .closed []
    · -- No token is left, so the search ends right behind this record.
      have hleft : (record name content).2 = [] := by rw [← left_ofRecord, hlast]; rfl
      rw [hlast, hleft, endingsOf_of_none rfl]
      decide
    · rw [List.count_cons_of_ne hlast]
      exact ih

/-- One record at most ends with the last token. -/
theorem count_closed_nil_endingsBelow (parent : String) (path : List String)
    (tokens : List Located) : (endingsBelow parent path tokens).count (.closed []) ≤ 1 := by
  induction path generalizing parent tokens with
  | nil => exact List.count_le_length
  | cons segment path ih =>
    cases path with
    | nil => exact count_closed_nil_endingsOf segment tokens
    | cons next path =>
      unfold endingsBelow
      cases afterStart? segment tokens with
      | none => exact Nat.zero_le 1
      | some content =>
        rw [List.count_append]
        exact ih segment content

theorem count_closed_nil_endings (s : Stream) (path : List String) :
    (s.endings path).count (.closed []) ≤ 1 := by
  cases path with
  | nil => exact Nat.zero_le 1
  | cons root path =>
    rw [endings]
    split
    · split_ifs
      · exact count_closed_nil_endingsBelow root path _
      · exact Nat.zero_le 1
    · exact Nat.zero_le 1

/-- The one loop for a document of which the root is the record. -/
theorem endings_of_root {before after : List Token} {root : String} {attributes : Attributes}
    {content : List Node} (hbefore : ∀ t ∈ before, t.isText = true)
    (htokens : s.tokens.map Located.token =
      before ++ (Node.element root attributes content).tokens ++ after) :
    ∃ behind, behind.map Located.token = after ∧ s.endings [root] = [.closed behind] := by
  obtain ⟨front, behind, htoks, hfront, hbehind⟩ := List.map_eq_append_iff.1 htokens
  obtain ⟨front, tree, rfl, rfl, htree⟩ := List.map_eq_append_iff.1 hfront
  obtain ⟨start, inner, stop, rfl, hstart, hinner, hstop⟩ := exists_tags_of_element htree
  have hfirst : FirstTag s.tokens start (inner ++ [stop] ++ behind) := by
    rw [htoks, List.append_assoc, List.cons_append]
    exact firstTag_append hbefore (by rw [hstart]; rfl)
  have hname : start.token.startName? = some root := by rw [hstart]; rfl
  have hcontent : (inner ++ [stop]).map Located.token = Node.tokensOf content ++ [.stop root] := by
    rw [List.map_append, hinner, List.map_singleton, hstop]
  refine ⟨behind, hbehind, ?_⟩
  rw [endings, firstTag?_eq_some_iff.2 hfirst]
  simp only [hname, if_true]
  rw [endingsBelow, ofRecord_tree root content _ _ hcontent]

/-- **How many remarks about a fault there are.** Without a fault there is none. With one, there is
one for each loop over the tokens that ran out of them, and one more if the last token is the end
tag of a record. A record that is closed before adds none; one that is closed by the last token does,
and so does a root that is the record. -/
theorem invalid_remarks (s : Stream) (path : List String) :
    let endings := s.endings path
    let remarks := (s.extract path).diagnostics.filter Invalid
    (remarks.length =
        (if s.stop.isSome then endings.count .ranOut + endings.count (.closed []) else 0) ∧
      endings.count (.closed []) ≤ 1) ∧
    (∀ name tokens behind, Ending.ofRecord name tokens = .closed behind →
      (s.oneRecord name tokens).2.length = if s.stop.isSome ∧ behind = [] then 1 else 0) ∧
    ∀ before after root attributes content, path = [root] → (∀ t ∈ before, t.isText = true) →
      s.tokens.map Located.token =
        before ++ (Node.element root attributes content).tokens ++ after →
      remarks.length = if s.stop.isSome ∧ after = [] then 1 else 0 := by
  intro endings remarks
  have hremarks : remarks = s.remarksBehind endings := filter_invalid s path
  refine ⟨⟨?_, count_closed_nil_endings s path⟩, ?_, ?_⟩
  · rw [hremarks, length_remarksBehind]
  · intro name tokens behind hclosed
    have hleft : (record name tokens).2 = behind := by rw [← left_ofRecord, hclosed]; rfl
    have hremarked : (s.oneRecord name tokens).2 = s.remarks behind := by rw [← hleft]; rfl
    rw [hremarked, length_remarks]
  · intro before after root attributes content hpath hbefore htokens
    obtain ⟨behind, hbehind, hendings⟩ := endings_of_root hbefore htokens
    have hone : endings = [.closed behind] := by rw [← hendings, ← hpath]
    rw [hremarks, hone, remarksBehind, List.flatMap_singleton, length_remarks, ← hbehind]
    exact if_congr (and_congr_right fun _ => List.map_eq_nil_iff.symm) rfl rfl

/-! ## A fault right behind the root -/

/-- The root is closed, and the document breaks off behind it. -/
def brokenOff : Stream where
  document := "<a>x</a><".toList
  tokens := [⟨.start "a" [], 3⟩, ⟨.text "x", 4⟩, ⟨.stop "a", 8⟩]
  stop := some ⟨.unclosedTag, 9⟩

theorem read_brokenOff : Stream.read "<a>x</a><" = brokenOff := by decide +kernel

/-- There is a remark, though no loop ran out. -/
theorem invalid_remarks_brokenOff :
    (brokenOff.endings ["a"]).count .ranOut = 0 ∧
      ((brokenOff.extract ["a"]).diagnostics.filter Invalid).length = 1 := by
  have htokens : brokenOff.tokens.map Located.token =
      [] ++ (Node.element "a" [] [.text "x"]).tokens ++ [] := by decide
  obtain ⟨-, -, hroot⟩ := invalid_remarks brokenOff ["a"]
  refine ⟨by decide, ?_⟩
  exact hroot [] [] "a" [] [.text "x"] rfl (fun _ h => absurd h List.not_mem_nil) htokens

/-- **A remark can come too early**: before a loop has run out of tokens, behind a root that is
closed. -/
theorem invalid_remarks_early :
    (¬ ∀ (document : String) (path : List String),
      (((Stream.read document).extract path).diagnostics.filter Invalid).length =
        if (Stream.read document).stop.isSome then
          ((Stream.read document).endings path).count .ranOut else 0) ∧
    ¬ ∀ (document root : String) (attributes : Attributes) (content : List Node)
        (after : List Token),
      (Stream.read document).tokens.map Located.token =
        (Node.element root attributes content).tokens ++ after →
      ((Stream.read document).extract [root]).diagnostics.filter Invalid = [] := by
  constructor
  · intro h
    have hbroken := h "<a>x</a><" ["a"]
    rw [read_brokenOff] at hbroken
    revert hbroken
    decide +kernel
  · intro h
    have hbroken := h "<a>x</a><" "a" [] [.text "x"] []
    rw [read_brokenOff] at hbroken
    revert hbroken
    decide +kernel

end Stream

end Extractor.Xml
