import Extractor.Proofs.Specification.Loading
import Extractor.Proofs.Specification.Sections
import Mathlib.Data.List.Forall2
import Mathlib.Logic.Relation
/-!
# The layout of a specification

Blank lines, comments, white space at line ends and the depth of an indentation mean nothing: two
sources that such edits turn into each other load as the same specification, or are refused for the
same fault (`load_of_edits`). Loading a source comes to the same, up to places, as loading its
lines in their plainest form (`load_tidy`), and no edit changes that form.
-/

namespace Extractor

open Text
open Grammar (Significant Indented)

/-- What a fault says, without its place. -/
def Fault.words (f : Fault) : Fault.Kind × String × Option String := (f.kind, f.message, f.help)

/-! ## Results that differ in places only -/

/-- Related results, or faults that say the same. -/
inductive Agree {α β : Type} (R : α → β → Prop) : Except Fault α → Except Fault β → Prop
  | ok {a : α} {b : β} (h : R a b) : Agree R (.ok a) (.ok b)
  | error {f g : Fault} (h : f.words = g.words) : Agree R (.error f) (.error g)

namespace Agree

section

variable {α α' β β' : Type} {R : α → β → Prop} {R' : α' → β' → Prop}

theorem bind {x : Except Fault α} {y : Except Fault β} {f : α → Except Fault α'}
    {g : β → Except Fault β'} (h : Agree R x y) (hnext : ∀ a b, R a b → Agree R' (f a) (g b)) :
    Agree R' (x >>= f) (y >>= g) := by
  cases h with
  | ok h => exact hnext _ _ h
  | error h => exact .error h

/-- Steps that agree make runs that agree. -/
theorem foldlM {f : α → α' → Except Fault α} {g : β → β' → Except Fault β} {xs : List α'}
    {ys : List β'} {a : α} {b : β} (h : List.Forall₂ R' xs ys) (hab : R a b)
    (hstep : ∀ a b x y, R a b → R' x y → Agree R (f a x) (g b y)) :
    Agree R (xs.foldlM f a) (ys.foldlM g b) := by
  induction h generalizing a b with
  | nil => exact .ok hab
  | cons hxy _ ih =>
    rw [List.foldlM_cons, List.foldlM_cons]
    exact (hstep _ _ _ _ hab hxy).bind fun _ _ hnext => ih hnext

theorem mapError_eq {x y : Except Fault α} (h : Agree Eq x y) :
    x.mapError Fault.words = y.mapError Fault.words := by
  cases h with
  | ok h => rw [h]
  | error h => rw [Except.mapError, Except.mapError, h]

end

end Agree

/-! ## Lines in their plainest form -/

/-- The line without white space at its end and with one space where it is indented; none if the
line means nothing. -/
def Line.tidy? (raw : List Char) : Option (List Char) :=
  let text := dropBlankEnd raw
  if ¬ Significant text then none
  else if Indented text then some (' ' :: trimChars text)
  else some text

/-- The lines say the same, wherever they stand. -/
inductive Line.Alike : Line → Line → Prop
  | entry (key value : String) (keySpan span keySpan' span' : Span) :
    Alike (.entry key value keySpan span) (.entry key value keySpan' span')
  | continuation (text : String) (span span' : Span) :
    Alike (.continuation text span) (.continuation text span')

namespace Line

section

variable {raw raw' line : List Char} {byte byte' number number' : Nat}

theorem read_of_indented (h : Indented (dropBlankEnd raw)) :
    read byte number raw = .ok (some (.continuation (String.ofList (trimChars (dropBlankEnd raw)))
      (Span.ofLineStart byte number (dropBlankEnd raw)))) := by
  unfold read
  split
  · next hnil =>
    rw [hnil] at h
    cases h
  · next hcomment =>
    rw [hcomment] at h
    exact nomatch h
  · next c rest _ hcons =>
    rw [hcons] at h ⊢
    exact if_pos h

/-- White space at the end of a line does not count. -/
theorem agree_read (h : dropBlankEnd raw = dropBlankEnd raw') :
    Agree (Option.Rel Alike) (read byte number raw) (read byte' number' raw') := by
  unfold read
  rw [h]
  split
  · exact .ok .none
  · exact .ok .none
  · dsimp only
    split
    · exact .ok (.some (.continuation _ _ _))
    · split
      · exact .ok (.some (.entry _ _ _ _ _ _))
      · exact .error rfl

theorem read_of_tidy?_eq_none (h : tidy? raw = none) : read byte number raw = .ok none := by
  unfold tidy? at h
  dsimp only at h
  split_ifs at h with hsignificant
  unfold read
  split
  · rfl
  · rfl
  · next c rest hcomment hcons =>
    rw [hcons] at hsignificant
    exact absurd ⟨List.cons_ne_nil c rest, fun hc => hcomment (Option.some.inj hc)⟩ hsignificant

theorem agree_read_tidy (h : tidy? raw = some line) :
    Agree (Option.Rel Alike) (read byte number raw) (read byte' number' line) := by
  unfold tidy? at h
  dsimp only at h
  split_ifs at h with hsignificant hindented <;> cases h
  · -- One space more leaves the text of an indented line as it is.
    have hne : dropBlankEnd (trimChars (dropBlankEnd raw)) ≠ [] := by
      rw [trimChars, dropBlankEnd_dropBlankEnd, ← trimChars, Ne, trimChars_eq_nil_iff,
        ← dropBlankEnd_eq_nil_iff, dropBlankEnd_dropBlankEnd]
      exact hsignificant.1
    have htidy : dropBlankEnd (' ' :: trimChars (dropBlankEnd raw)) =
        ' ' :: trimChars (dropBlankEnd raw) := by
      have h := dropBlankEnd_append_of_ne_nil (s := [' ']) hne
      rwa [trimChars, dropBlankEnd_dropBlankEnd, ← trimChars] at h
    have hspace : trimChars (' ' :: trimChars (dropBlankEnd raw)) =
        trimChars (dropBlankEnd raw) := trimChars_trimChars _
    rw [read_of_indented hindented, read_of_indented (by rw [htidy]; rfl), htidy, hspace]
    exact .ok (.some (.continuation _ _ _))
  · exact agree_read (dropBlankEnd_dropBlankEnd raw).symm

/-- Lines that mean nothing can be left out. -/
theorem agree_readFrom_tidy (raws : List (List Char)) (byte number byte' number' : Nat) :
    Agree (List.Forall₂ Alike) (readFrom byte number raws)
      (readFrom byte' number' (raws.filterMap tidy?)) := by
  -- From the first line left out on the places differ, so both of them are arbitrary.
  induction raws generalizing byte number byte' number' with
  | nil => exact .ok .nil
  | cons raw raws ih =>
    cases h : tidy? raw with
    | none =>
      have hskip : readFrom byte number (raw :: raws) =
          readFrom (byte + byteSize raw + 1) (number + 1) raws := by
        rw [readFrom, read_of_tidy?_eq_none h]
        exact bind_pure (readFrom (byte + byteSize raw + 1) (number + 1) raws)
      rw [hskip, List.filterMap_cons_none h]
      exact ih _ _ _ _
    | some line =>
      rw [List.filterMap_cons_some h, readFrom, readFrom]
      refine (agree_read_tidy h).bind fun first first' hfirst => ?_
      refine (ih _ _ _ _).bind fun lines lines' hlines => .ok ?_
      cases hfirst with
      | none => exact hlines
      | some hline => exact .cons hline hlines

end

end Line

/-! ## Drafts -/

/-- What the section holds, wherever it starts. -/
def Section.content (s : Section) : Slot × String := (s.slot, s.text)

namespace Draft

def texts (d : Draft) : List (Slot × String) := d.sections.map Section.content

/-- The drafts hold the same texts, and go on with the same slot. -/
structure Alike (d e : Draft) : Prop where
  texts : d.texts = e.texts
  current : d.current = e.current

section

variable {d e : Draft} {sections sections' : List Section} {line line' : Line}

theorem map_addText (slot : Slot) (text : String) (span span' : Span)
    (h : sections.map Section.content = sections'.map Section.content) :
    (addText slot text span sections).map Section.content =
      (addText slot text span' sections').map Section.content := by
  induction sections generalizing sections' with
  | nil =>
    rw [List.map_nil, eq_comm, List.map_eq_nil_iff] at h
    rw [h]
    rfl
  | cons s sections ih =>
    obtain ⟨s', sections', rfl, hs, hothers⟩ := List.map_eq_cons_iff.1 h.symm
    obtain ⟨hslot, htext⟩ := Prod.mk.inj hs
    unfold addText
    rw [hslot]
    split
    · rw [List.map_cons, List.map_cons, Section.content, Section.content, hothers]
      simp [htext]
    · rw [List.map_cons, List.map_cons, hs, ih hothers.symm]

theorem agree_ofKey? (key : String) (keySpan keySpan' : Span) :
    Agree Eq (Slot.ofKey? key keySpan) (Slot.ofKey? key keySpan') := by
  unfold Slot.ofKey?
  split
  · exact .ok rfl
  · induction Slot.openings with
    | nil => exact .ok rfl
    | cons opening others ih =>
      unfold Slot.ofBracketed?
      split
      · exact ih
      · split
        · exact .ok rfl
        · exact .error rfl

theorem agree_step (hd : d.Alike e) (hline : line.Alike line') :
    Agree Alike (d.step line) (e.step line') := by
  cases hline with
  | continuation text span span' =>
    simp only [step, hd.current]
    split
    · exact .error rfl
    · exact .ok hd
    · exact .ok ⟨map_addText _ _ _ _ hd.texts, rfl⟩
  | entry key value keySpan span keySpan' span' =>
    refine (agree_ofKey? key keySpan keySpan').bind ?_
    rintro slot? _ rfl
    cases slot? with
    | none => exact .ok ⟨hd.texts, rfl⟩
    | some slot => exact .ok ⟨map_addText _ _ _ _ hd.texts, rfl⟩

/-! ### The end of the file -/

theorem text_eq (d : Draft) (slot : Slot) :
    d.text slot = ((d.texts.find? (·.1 = slot)).map (·.2)).getD "" := by
  rw [text, find?, texts, List.find?_map, Option.map_map]
  rfl

theorem rules_eq_filterMap (d : Draft) (sort : Slot → Option Key) :
    d.rules sort = d.texts.filterMap fun entry => (sort entry.1).map fun key => ⟨key, entry.2⟩ := by
  simp only [rules, keyed, texts, List.map_filterMap, List.filterMap_map, Function.comp_def,
    Option.map_map]
  rfl

theorem agree_format (h : d.texts = e.texts) (atEnd atEnd' : Span) :
    Agree Eq (d.format atEnd) (e.format atEnd') := by
  simp only [format, text_eq, h]
  split
  · exact .error rfl
  · split
    · exact .ok rfl
    · exact .error rfl

theorem agree_entriesPath (h : d.texts = e.texts) (atEnd atEnd' : Span) :
    Agree Eq (d.entriesPath atEnd) (e.entriesPath atEnd') := by
  simp only [entriesPath, text_eq, h]
  split
  · exact .error rfl
  · split
    · exact .error rfl
    · exact .ok rfl

theorem agree_finish (h : d.texts = e.texts) (atEnd atEnd' : Span) :
    Agree Eq (d.finish atEnd) (e.finish atEnd') := by
  refine (agree_format h atEnd atEnd').bind ?_
  rintro format _ rfl
  refine (agree_entriesPath h atEnd atEnd').bind ?_
  rintro path _ rfl
  simp only [map_keyed, rules_eq_filterMap, textUnlessBlank, text_eq, h]
  exact .ok rfl

end

end Draft

/-! ## Loading -/

namespace Grammar

def sourceLines (source : String) : List (List Char) := source.toList.splitOn '\n'

/-- The specification that some lines make up. -/
def loadLines (raws : List (List Char)) (atEnd : Span) : Except Fault Specification := do
  let lines ← Line.readFrom 0 0 raws
  let draft ← lines.foldlM Draft.step Draft.empty
  draft.finish atEnd

theorem foldlM_step (d : Draft) (lines : List Line) :
    lines.foldlM Draft.step d =
      match (d.readLines lines).2 with
      | some fault => .error fault
      | none => .ok (d.readLines lines).1 := by
  induction lines generalizing d with
  | nil => rfl
  | cons line lines ih =>
    rw [List.foldlM_cons, Draft.readLines]
    cases d.step line with
    | error fault => rfl
    | ok next => exact ih next

theorem load_eq_loadLines (source : String) :
    Specification.load source =
      loadLines (sourceLines source) (Span.ofEnd (physicalLines source).length) := by
  unfold loadLines sourceLines
  cases h : Line.readAll source with
  | error fault =>
    rw [load_of_readAll_error h]
    rw [Line.readAll] at h
    rw [h]
    rfl
  | ok lines =>
    rw [load_of_readAll_ok h]
    rw [Line.readAll] at h
    rw [h]
    simp only [bind, Except.bind, foldlM_step]
    cases (Draft.empty.readLines lines).2 <;> rfl

theorem agree_loadLines_tidy (raws : List (List Char)) (atEnd atEnd' : Span) :
    Agree Eq (loadLines raws atEnd) (loadLines (raws.filterMap Line.tidy?) atEnd') := by
  refine (Line.agree_readFrom_tidy raws 0 0 0 0).bind fun lines lines' hlines => ?_
  have hempty : Draft.empty.Alike Draft.empty := ⟨rfl, rfl⟩
  refine (Agree.foldlM hlines hempty fun _ _ _ _ => Draft.agree_step).bind fun d e hd => ?_
  exact Draft.agree_finish hd.texts atEnd atEnd'

/-! ## Edits -/

/-- One change to the lines of a source that leaves its meaning alone. No line of a source holds a
line break, so the white space here has none either. -/
inductive Edit : List (List Char) → List (List Char) → Prop
  | insert {line : List Char} (before after : List (List Char))
      (h : line.all isBlank = true ∨ line.head? = some '#') :
    Edit (before ++ after) (before ++ line :: after)
  | trail {space : List Char} (before after : List (List Char)) (line : List Char)
      (hspace : space.all isBlank = true) :
    Edit (before ++ line :: after) (before ++ (line ++ space) :: after)
  | indent {space space' : List Char} (before after : List (List Char)) (text : List Char)
      (hspace : space.all isBlank = true) (hne : space ≠ [])
      (hspace' : space'.all isBlank = true) (hne' : space' ≠ []) :
    Edit (before ++ (space ++ text) :: after) (before ++ (space' ++ text) :: after)

section

variable {line space text : List Char} {raws raws' : List (List Char)}

theorem tidy?_of_insignificant (h : line.all isBlank = true ∨ line.head? = some '#') :
    Line.tidy? line = none := by
  refine if_pos fun hsignificant => ?_
  rcases h with hblank | hcomment
  · exact hsignificant.1 (dropBlankEnd_eq_nil_iff.2 hblank)
  · obtain ⟨rest, rfl⟩ := List.head?_eq_some_iff.1 hcomment
    rw [dropBlankEnd_cons_of_not_blank (by decide)] at hsignificant
    exact hsignificant.2 rfl

/-- Of an indented line only its text counts. -/
theorem tidy?_of_indented (hspace : space.all isBlank = true) (hne : space ≠ []) :
    Line.tidy? (space ++ text) =
      if text.all isBlank then none else some (' ' :: trimChars (dropBlankEnd text)) := by
  by_cases hblank : text.all isBlank = true
  · rw [if_pos hblank]
    exact tidy?_of_insignificant (.inl (by rw [List.all_append, hspace, hblank, Bool.and_true]))
  · rw [if_neg hblank]
    obtain ⟨c, space, rfl⟩ := List.exists_cons_of_ne_nil hne
    have hc : isBlank c = true := List.all_eq_true.1 hspace c List.mem_cons_self
    have htext : dropBlankEnd (c :: space ++ text) = c :: space ++ dropBlankEnd text :=
      dropBlankEnd_append_of_ne_nil (mt dropBlankEnd_eq_nil_iff.1 hblank)
    have hindented : Indented (c :: space ++ dropBlankEnd text) := hc
    have hsignificant : Significant (c :: space ++ dropBlankEnd text) := by
      refine ⟨List.cons_ne_nil _ _, fun hcomment => ?_⟩
      rw [Option.some.inj hcomment] at hc
      cases hc
    unfold Line.tidy?
    rw [htext, if_neg (not_not.2 hsignificant), if_pos hindented,
      trimChars_append_of_all_blank hspace]

theorem Edit.filterMap_tidy? (h : Edit raws raws') :
    raws.filterMap Line.tidy? = raws'.filterMap Line.tidy? := by
  cases h with
  | insert before after h =>
    rw [List.filterMap_append, List.filterMap_append,
      List.filterMap_cons_none (tidy?_of_insignificant h)]
  | @trail space before after line hspace =>
    have hline : Line.tidy? (line ++ space) = Line.tidy? line := by
      unfold Line.tidy?
      rw [dropBlankEnd_append_of_all_blank hspace]
    rw [List.filterMap_append, List.filterMap_append, List.filterMap_cons, List.filterMap_cons,
      hline]
  | indent before after text hspace hne hspace' hne' =>
    rw [List.filterMap_append, List.filterMap_append, List.filterMap_cons, List.filterMap_cons,
      tidy?_of_indented hspace hne, tidy?_of_indented hspace' hne']

end

/-- **Layout does not matter.** Two sources that any number of edits, done or undone, turn into each
other load as equal specifications, or are refused for faults of one kind, message and help. -/
theorem load_of_edits {source other : String}
    (h : Relation.EqvGen (fun s t => Edit (sourceLines s) (sourceLines t)) source other) :
    (Specification.load source).mapError Fault.words =
      (Specification.load other).mapError Fault.words := by
  have htidy : (sourceLines source).filterMap Line.tidy? =
      (sourceLines other).filterMap Line.tidy? := by
    induction h with
    | rel _ _ hedit => exact hedit.filterMap_tidy?
    | refl _ => rfl
    | symm _ _ _ ih => exact ih.symm
    | trans _ _ _ _ _ ih ih' => exact ih.trans ih'
  have hload (source : String) : (Specification.load source).mapError Fault.words =
      (loadLines ((sourceLines source).filterMap Line.tidy?) default).mapError Fault.words := by
    rw [load_eq_loadLines]
    exact (agree_loadLines_tidy _ _ _).mapError_eq
  rw [hload, hload, htidy]

/-- A carriage return, a comment between a key and its value, and another indentation. -/
theorem load_of_edits_scattered :
    let source := "format: xml\nentries:\n a/b"
    let other := "format: xml\nentries:\r\n# records\n\ta/b"
    Relation.EqvGen (fun s t => Edit (sourceLines s) (sourceLines t)) source other ∧
      (Specification.load source).mapError Fault.words =
        (Specification.load other).mapError Fault.words ∧
      (Specification.load source).toOption.isSome := by
  intro source other
  let first := "format: xml\nentries:\r\n a/b"
  let second := "format: xml\nentries:\r\n# records\n a/b"
  let format := "format: xml".toList
  let entries := "entries:".toList
  have hsource : sourceLines source = [format] ++ entries :: [" a/b".toList] := by decide +kernel
  have hfirst : sourceLines first = [format] ++ (entries ++ ['\r']) :: [" a/b".toList] := by
    decide +kernel
  have hsecond : sourceLines second =
      [format, entries ++ ['\r']] ++ "# records".toList :: [" a/b".toList] := by
    decide +kernel
  have hother : sourceLines other =
      [format, entries ++ ['\r'], "# records".toList] ++ (['\t'] ++ "a/b".toList) :: [] := by
    decide +kernel
  have hedits : Relation.EqvGen (fun s t => Edit (sourceLines s) (sourceLines t)) source other := by
    refine .trans _ first _ (.rel _ _ ?_) (.trans _ second _ (.rel _ _ ?_) (.rel _ _ ?_))
    · rw [hsource, hfirst]
      exact .trail _ _ _ rfl
    · rw [hfirst, hsecond]
      exact .insert [format, entries ++ ['\r']] _ (.inr rfl)
    · rw [hsecond, hother]
      have hspace : [' '].all isBlank = true := rfl
      have htab : ['\t'].all isBlank = true := rfl
      exact .indent [format, entries ++ ['\r'], "# records".toList] [] "a/b".toList
        hspace (List.cons_ne_nil _ _) htab (List.cons_ne_nil _ _)
  exact ⟨hedits, load_of_edits hedits, by decide +kernel⟩

end Grammar

end Extractor
