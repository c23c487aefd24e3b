import Extractor.Xml.Extract
import Mathlib.Data.List.Infix
/-!
# Following a path

Whether the way to the records is found (`extract_ok_iff`): the root has the first name of the
path, and the names between it and the last one are a subsequence of those of the start tags that
follow. A search takes the first tag with its name, and this loses no match
(`cons_sublist_startNames_iff`). Where the way ends, one diagnostic names the first part of the
path that is missing, and there are no records.
-/

namespace Extractor.Xml

open scoped List

namespace Token

def startName? : Token → Option String
  | .start name _ => some name
  | _ => none

def isText : Token → Bool
  | .text _ => true
  | _ => false

end Token

/-- The names of the start tags, in document order. -/
def startNames (tokens : List Located) : List String :=
  tokens.filterMap fun t => t.token.startName?

/-- The first token that is not text, and the tokens behind it. -/
def FirstTag (tokens : List Located) (tag : Located) (behind : List Located) : Prop :=
  tag.token.isText = false ∧
    ∃ before, (∀ t ∈ before, t.token.isText = true) ∧ tokens = before ++ tag :: behind

/-- How the diagnostics start that tell of a missing part of the document, not of a fault in it. -/
def structuralMarkers : List String := ["Could not read start element", "Expected '"]

def Structural (diagnostic : String) : Prop :=
  ∃ marker ∈ structuralMarkers, marker.toList <+: diagnostic.toList

instance : DecidablePred Structural := fun diagnostic =>
  inferInstanceAs (Decidable (∃ marker ∈ structuralMarkers, marker.toList <+: diagnostic.toList))

/-- The path is a subsequence of the names up to `path[k]`, and not with it. -/
structure MissingAt (path names : List String) (k : Nat) : Prop where
  found : ∀ j ≤ k, path.take j <+ names
  missing : ¬ path.take (k + 1) <+ names

namespace Stream

def noStartMessage (s : Stream) (line : Nat) : String :=
  "Could not read start element" ++ (" at XML line " ++ toString line ++ ": " ++
    (s.stop.map (·.fault.message)).getD "no root element")

def otherRootMessage (expected found : String) (line : Nat) : String :=
  "Expected '" ++ expected ++ "', got \"" ++ found ++ "\" at XML line " ++ toString line

def missingMessage (s : Stream) (segment parent : String) : String :=
  "Expected '" ++ segment ++ "' inside '" ++ parent ++ "' at XML line " ++ toString s.lastLine

/-- The message names what is missing: the root, or the first name behind it that is not found. -/
inductive Blames (s : Stream) (root : String) (path : List String) : String → Prop
  | noTag (h : ∀ t ∈ s.tokens, t.token.isText = true) :
      Blames s root path (s.noStartMessage s.lastLine)
  | endTag {tag : Located} {behind : List Located} (h : FirstTag s.tokens tag behind)
      (hstop : tag.token.startName? = none) :
      Blames s root path (s.noStartMessage (s.line tag.offset behind))
  | otherRoot {tag : Located} {behind : List Located} {name : String}
      (h : FirstTag s.tokens tag behind) (hname : tag.token.startName? = some name)
      (hne : name ≠ root) :
      Blames s root path (otherRootMessage root name (s.line tag.offset behind))
  | segment {tag : Located} {behind : List Located} {k : Nat} {missing parent : String}
      (h : FirstTag s.tokens tag behind) (hname : tag.token.startName? = some root)
      (hmissing : path[k]? = some missing) (hparent : (root :: path)[k]? = some parent)
      (hk : MissingAt path (startNames behind) k) :
      Blames s root path (s.missingMessage missing parent)

end Stream

/-! ## Start tags -/

section

variable {name : String} {path : List String} {t : Located} {tokens rest : List Located}

theorem startNames_cons_of_start (h : t.token.startName? = some name) :
    startNames (t :: rest) = name :: startNames rest :=
  List.filterMap_cons_some h

theorem startNames_cons_of_not_start (h : t.token.startName? = none) :
    startNames (t :: rest) = startNames rest :=
  List.filterMap_cons_none h

theorem afterStart?_cons :
    afterStart? name (t :: rest) =
      if t.token.startName? = some name then some rest else afterStart? name rest := by
  obtain ⟨token, offset⟩ := t
  cases token with
  | start n attributes => simp [afterStart?, Token.startName?]
  | stop n => rfl
  | text content => rfl

theorem afterStart?_eq_none_iff : afterStart? name tokens = none ↔ name ∉ startNames tokens := by
  induction tokens with
  | nil => simp [afterStart?, startNames]
  | cons t rest ih =>
    rw [afterStart?_cons]
    cases hstart : t.token.startName? with
    | none => simpa [startNames_cons_of_not_start hstart] using ih
    | some n =>
      rw [startNames_cons_of_start hstart]
      by_cases hn : n = name
      · simp [hn]
      · simpa [hn, Ne.symm hn] using ih

/-- **The first tag with a name is as good as any other.** -/
theorem cons_sublist_startNames_iff (h : afterStart? name tokens = some rest) :
    name :: path <+ startNames tokens ↔ path <+ startNames rest := by
  induction tokens with
  | nil => cases h
  | cons t others ih =>
    rw [afterStart?_cons] at h
    cases hstart : t.token.startName? with
    | none =>
      rw [hstart, if_neg (Option.some_ne_none _).symm] at h
      rw [startNames_cons_of_not_start hstart]
      exact ih h
    | some n =>
      rw [startNames_cons_of_start hstart]
      by_cases hn : n = name
      · rw [hstart, if_pos (congrArg some hn)] at h
        cases h
        rw [hn, List.cons_sublist_cons]
      · rw [hstart, if_neg (fun heq => hn (Option.some.inj heq))] at h
        rw [List.sublist_cons_iff, ← ih h, or_iff_left]
        rintro ⟨_, heq, -⟩
        exact hn (List.cons.inj heq).1.symm

theorem not_cons_sublist_startNames (h : afterStart? name tokens = none) :
    ¬ name :: path <+ startNames tokens := fun hsub =>
  afterStart?_eq_none_iff.1 h (hsub.subset List.mem_cons_self)

theorem firstTag?_cons :
    firstTag? (t :: rest) = if t.token.isText then firstTag? rest else some (t, rest) := by
  obtain ⟨token, offset⟩ := t
  cases token <;> rfl

theorem firstTag_cons_iff {tag : Located} {behind : List Located} :
    FirstTag (t :: rest) tag behind ↔
      if t.token.isText then FirstTag rest tag behind else t = tag ∧ rest = behind := by
  unfold FirstTag
  constructor
  · rintro ⟨htag, before, hbefore, heq⟩
    cases before with
    | nil =>
      cases heq
      simp [htag]
    | cons first before =>
      obtain ⟨rfl, rfl⟩ := List.cons.inj heq
      obtain ⟨htext, hothers⟩ := List.forall_mem_cons.1 hbefore
      rw [if_pos htext]
      exact ⟨htag, before, hothers, rfl⟩
  · intro h
    split at h
    · next htext =>
      obtain ⟨htag, before, hbefore, rfl⟩ := h
      exact ⟨htag, t :: before, List.forall_mem_cons.2 ⟨htext, hbefore⟩, rfl⟩
    · next htext =>
      obtain ⟨rfl, rfl⟩ := h
      exact ⟨Bool.eq_false_iff.2 htext, [], fun _ hmem => absurd hmem List.not_mem_nil, rfl⟩

theorem firstTag?_eq_some_iff {tag : Located} {behind : List Located} :
    firstTag? tokens = some (tag, behind) ↔ FirstTag tokens tag behind := by
  induction tokens with
  | nil => simp [firstTag?, FirstTag]
  | cons t rest ih =>
    rw [firstTag?_cons, firstTag_cons_iff, ← ih]
    split <;> simp

theorem firstTag?_eq_none_iff :
    firstTag? tokens = none ↔ ∀ t ∈ tokens, t.token.isText = true := by
  induction tokens with
  | nil => simp [firstTag?]
  | cons t rest ih =>
    rw [firstTag?_cons, List.forall_mem_cons, ← ih]
    split <;> simp [*]

/-- There is one first tag at most. -/
theorem FirstTag.unique {tag tag' : Located} {behind behind' : List Located}
    (h : FirstTag tokens tag behind) (h' : FirstTag tokens tag' behind') :
    tag = tag' ∧ behind = behind' := by
  rw [← firstTag?_eq_some_iff] at h h'
  rw [h] at h'
  cases h'
  exact ⟨rfl, rfl⟩

theorem MissingAt.cons {segment : String} {names content : List String} {k : Nat}
    (hcons : ∀ path, segment :: path <+ names ↔ path <+ content) (h : MissingAt path content k) :
    MissingAt (segment :: path) names (k + 1) := by
  refine ⟨fun j hj => ?_, ?_⟩
  · cases j with
    | zero => exact List.nil_sublist _
    | succ j => exact (hcons _).2 (h.found j (Nat.le_of_succ_le_succ hj))
  · rw [List.take_succ_cons, hcons]
    exact h.missing

end

namespace Stream

variable {s : Stream}

/-! ## Diagnostics -/

theorem structural_append {marker : String} (h : marker ∈ structuralMarkers) (rest : String) :
    Structural (marker ++ rest) := by
  refine ⟨marker, h, ?_⟩
  rw [String.toList_append]
  exact List.prefix_append _ _

theorem structural_expected (rest : String) : Structural ("Expected '" ++ rest) :=
  structural_append (List.mem_cons_of_mem _ List.mem_cons_self) rest

theorem Blames.structural {root : String} {path : List String} {message : String}
    (h : s.Blames root path message) : Structural message := by
  have hstart (line : Nat) : Structural (s.noStartMessage line) :=
    structural_append List.mem_cons_self _
  cases h with
  | noTag _ => exact hstart _
  | endTag _ _ => exact hstart _
  | otherRoot _ _ _ =>
    simp only [otherRootMessage, String.append_assoc]
    exact structural_expected _
  | segment _ _ _ _ =>
    simp only [missingMessage, String.append_assoc]
    exact structural_expected _

theorem not_structural_of_mem_remarks {rest : List Located} {remark : String}
    (h : remark ∈ s.remarks rest) : ¬ Structural remark := by
  unfold remarks at h
  split at h
  · obtain rfl := List.mem_singleton.1 h
    rintro ⟨marker, hmarker, hprefix⟩
    simp only [String.toList_append, List.append_assoc] at hprefix
    rcases List.mem_pair.1 hmarker with rfl | rfl
    · simp at hprefix
    · simp at hprefix
  · exact absurd h List.not_mem_nil

/-! ## The way to the records -/

section

variable {parent last : String} {path : List String} {tokens : List Located}

theorem allRecords_of_none (h : afterStart? last tokens = none) :
    s.allRecords last tokens = ⟨true, [], s.remarks []⟩ := by
  rw [allRecords]
  split
  · rfl
  · next content hsome => cases h.symm.trans hsome

theorem allRecords_of_some {content : List Located} (h : afterStart? last tokens = some content) :
    s.allRecords last tokens =
      ⟨(s.allRecords last (record last content).2).ok,
        (record last content).1 :: (s.allRecords last (record last content).2).records,
        s.remarks (record last content).2 ++
          (s.allRecords last (record last content).2).diagnostics⟩ := by
  rw [allRecords]
  split
  · next hnone => cases h.symm.trans hnone
  · next content' hsome =>
    cases h.symm.trans hsome
    rfl

theorem allRecords_ok (s : Stream) (last : String) (tokens : List Located) :
    (s.allRecords last tokens).ok = true := by
  induction tokens using allRecords.induct s last with
  | case1 tokens hnone => rw [allRecords_of_none hnone]
  | case2 tokens content hsome _ _ _ ih =>
    rw [allRecords_of_some hsome]
    exact ih

theorem below_ok (h : path.dropLast <+ startNames tokens) :
    (s.below parent path tokens).ok = true := by
  induction path generalizing parent tokens with
  | nil => rfl
  | cons segment path ih =>
    cases path with
    | nil => exact allRecords_ok _ _ _
    | cons next path =>
      rw [List.dropLast_cons_cons] at h
      unfold below
      cases hafter : afterStart? segment tokens with
      | none => exact absurd h (not_cons_sublist_startNames hafter)
      | some content => exact ih ((cons_sublist_startNames_iff hafter).1 h)

/-- Where a name is missing, every search up to it runs into the end of the document. -/
theorem below_missing (s : Stream) (parent : String) (h : ¬ path.dropLast <+ startNames tokens) :
    ∃ k missing outer, path[k]? = some missing ∧ (parent :: path)[k]? = some outer ∧
      MissingAt path (startNames tokens) k ∧
      s.below parent path tokens =
        ⟨false, [], s.remarks [] ++ [s.missingMessage missing outer] ++
          (List.replicate k (s.remarks [])).flatten⟩ := by
  induction path generalizing parent tokens with
  | nil => exact absurd (List.nil_sublist _) h
  | cons segment path ih =>
    cases path with
    | nil => exact absurd (List.nil_sublist _) h
    | cons next path =>
      rw [List.dropLast_cons_cons] at h
      unfold below
      cases hafter : afterStart? segment tokens with
      | none =>
        have hmissing : MissingAt (segment :: next :: path) (startNames tokens) 0 := by
          refine ⟨fun j hj => ?_, not_cons_sublist_startNames hafter⟩
          rw [Nat.le_zero.1 hj]
          exact List.nil_sublist _
        refine ⟨0, segment, parent, rfl, rfl, hmissing, ?_⟩
        simp [Extraction.remark, missingMessage]
      | some content =>
        have hcons (path : List String) :
            segment :: path <+ startNames tokens ↔ path <+ startNames content :=
          cons_sublist_startNames_iff hafter
        rw [hcons] at h
        obtain ⟨k, missing, outer, hmissing, houter, hk, hbelow⟩ := ih segment h
        refine ⟨k + 1, missing, outer, hmissing, houter, hk.cons hcons, ?_⟩
        dsimp only
        rw [hbelow]
        simp [Extraction.remark, List.replicate_succ']

/-! ## The first tag -/

variable {root : String} {tag : Located} {behind : List Located}

theorem extract_of_start (path : List String) (h : FirstTag s.tokens tag behind)
    (hname : tag.token.startName? = some root) :
    s.extract (root :: path) = s.below root path behind := by
  obtain ⟨token, offset⟩ := tag
  cases token with
  | start name attributes =>
    cases hname
    simp only [extract, firstTag?_eq_some_iff.2 h, if_true]
  | stop name => cases hname
  | text content => cases hname

theorem noStart_eq (s : Stream) (line : Nat) :
    s.noStart line = .failure (s.noStartMessage line) := by
  have hmarker : "Could not read start element at XML line " =
      "Could not read start element" ++ " at XML line " := by decide +kernel
  unfold noStart noStartMessage
  simp only [hmarker, String.append_assoc]

theorem extract_of_not_start (path : List String)
    (h : ¬ ∃ tag behind, FirstTag s.tokens tag behind ∧ tag.token.startName? = some root) :
    ∃ message, s.Blames root path message ∧ s.extract (root :: path) = .failure message := by
  cases hfirst : firstTag? s.tokens with
  | none =>
    have hblames : s.Blames root path (s.noStartMessage s.lastLine) :=
      .noTag (firstTag?_eq_none_iff.1 hfirst)
    refine ⟨_, hblames, ?_⟩
    rw [← noStart_eq]
    simp only [extract, hfirst]
  | some found =>
    obtain ⟨⟨token, offset⟩, behind⟩ := found
    have htag := firstTag?_eq_some_iff.1 hfirst
    cases token with
    | start name attributes =>
      have hne : name ≠ root := by
        rintro rfl
        exact h ⟨_, _, htag, rfl⟩
      refine ⟨_, .otherRoot htag rfl hne, ?_⟩
      simp only [extract, hfirst, if_neg hne, otherRootMessage]
    | stop name =>
      have hblames : s.Blames root path _ := .endTag htag rfl
      refine ⟨_, hblames, ?_⟩
      rw [← noStart_eq]
      simp only [extract, hfirst]
    | text content => cases htag.1

/-- **Whether the way to the records is found.** It is found if the first tag is the start of the
root and the names up to the last one are a subsequence of those of the start tags behind it;
otherwise there are no records, and the one diagnostic that is no remark about a fault names what
is missing. -/
theorem extract_ok_iff (s : Stream) (root : String) (path : List String) :
    let extraction := s.extract (root :: path)
    (extraction.ok = true ↔ ∃ tag behind, FirstTag s.tokens tag behind ∧
      tag.token.startName? = some root ∧ path.dropLast <+ startNames behind) ∧
    (extraction.ok = false → extraction.records = [] ∧
      ∃ message, s.Blames root path message ∧
        extraction.diagnostics.filter Structural = [message]) := by
  intro extraction
  by_cases hroot : ∃ tag behind, FirstTag s.tokens tag behind ∧ tag.token.startName? = some root
  · obtain ⟨tag, behind, hfirst, hname⟩ := hroot
    have hextract : extraction = s.below root path behind := extract_of_start path hfirst hname
    by_cases hsub : path.dropLast <+ startNames behind
    · have hok : extraction.ok = true := by rw [hextract, below_ok hsub]
      refine ⟨iff_of_true hok ⟨tag, behind, hfirst, hname, hsub⟩, fun hfalse => ?_⟩
      cases hok.symm.trans hfalse
    · obtain ⟨k, missing, parent, hmissing, hparent, hk, hbelow⟩ := below_missing s root hsub
      have hblames := Blames.segment hfirst hname hmissing hparent hk
      rw [hextract, hbelow]
      refine ⟨iff_of_false Bool.false_ne_true ?_, fun _ => ⟨rfl, _, hblames, ?_⟩⟩
      · rintro ⟨tag', behind', hfirst', -, hsub'⟩
        obtain ⟨rfl, rfl⟩ := hfirst.unique hfirst'
        exact hsub hsub'
      · have hremarks : (s.remarks []).filter Structural = [] := by
          rw [List.filter_eq_nil_iff]
          exact fun d hd => by simpa using not_structural_of_mem_remarks hd
        simp [List.filter_append, List.filter_flatten, hremarks, hblames.structural]
  · obtain ⟨message, hblames, hfailure⟩ := extract_of_not_start path hroot
    have hextract : extraction = .failure message := hfailure
    rw [hextract]
    refine ⟨iff_of_false Bool.false_ne_true ?_, fun _ => ⟨rfl, message, hblames, ?_⟩⟩
    · rintro ⟨tag, behind, hfirst, hname, -⟩
      exact hroot ⟨tag, behind, hfirst, hname⟩
    · simp [Extraction.failure, hblames.structural]

end

end Stream

end Extractor.Xml
