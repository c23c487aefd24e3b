import Extractor.Proofs.Specification.Excerpt

/-!
# Warnings of the loader

Nothing in a specification is passed over in silence. Each line with an unknown key has a warning,
also those before the line that a source is refused for, and so has each value class that is given
for a key without a field rule, at the line that first gives it (`read_warns`).
-/

namespace Extractor

open Text

namespace Grammar

/-- The key of a line, if it is a key line. -/
def keyOf? (text : List Char) : Option (List Char) :=
  if Indented text then none else (Line.separate? text).map fun split => trimChars split.1

/-- The key is none of the words and starts with none of the openings. -/
def Unknown (key : List Char) : Prop :=
  (∀ word ∈ words, key ≠ word.toList) ∧
    ∀ opening ∈ ["field[", "value[", "valueItemType["], ¬ opening.toList <+: key

instance (key : List Char) : Decidable (Unknown key) :=
  inferInstanceAs (Decidable (_ ∧ _))

/-- The warning about a line with an unknown key. Warnings count lines from one. -/
def unknownKey? (line : List Char × Nat) : Option Warning :=
  (keyOf? line.1).bind fun key =>
    if Unknown key then some (.unknownKey (line.2 + 1) (String.ofList key)) else none

/-- The keys in brackets behind an opening, each with the number of its line. -/
def uses (opening : String) (lines : List (List Char × Nat)) : List (Key × Nat) :=
  lines.filterMap fun line => ((keyOf? line.1).bind (keyIn? opening)).map (·, line.2)

/-- Each key once, in the order of the first uses, with the number of its first use. -/
def firstUses (uses : List (Key × Nat)) : List (Key × Nat) :=
  (uses.map Prod.fst).eraseDups.filterMap fun key => uses.find? (·.1 = key)

/-- The warnings about value classes for keys that no field rule has. -/
def idleOverrides (lines : List (List Char × Nat)) : List Warning :=
  (firstUses (uses "valueItemType[" lines)).filterMap fun (key, number) =>
    if key ∈ (uses "field[" lines).map Prod.fst then none
    else some (.overrideWithoutField (number + 1) key)

end Grammar

/-! ## Unknown keys -/

/-- The key of a line that has been read. -/
def Line.key? : Line → Option (List Char)
  | .continuation _ _ => none
  | .entry key _ _ _ => some key.toList

namespace Slot

variable {key : String} {keySpan : Span} {others : List (String × (Key → Slot))}

theorem ofWord?_eq_none_iff : ofWord? key = none ↔ key ∉ Grammar.words := by
  unfold ofWord? Grammar.words
  split_ifs <;> simp_all

theorem ofBracketed?_eq_none_iff :
    ofBracketed? key keySpan others = .ok none ↔
      ∀ opening ∈ others, ¬ opening.1.toList <+: key.toList := by
  induction others with
  | nil => exact iff_of_true rfl (List.forall_mem_nil _)
  | cons o others ih =>
    obtain ⟨opening, slotOf⟩ := o
    rw [ofBracketed?, List.forall_mem_cons]
    cases hstart : opening.toList.isPrefixOf? key.toList with
    | none => simp [ih, isPrefixOf?_eq_none_iff.1 hstart]
    | some rest =>
      have hprefix : opening.toList <+: key.toList := ⟨rest, (isPrefixOf?_eq_some hstart).symm⟩
      refine iff_of_false (fun h => ?_) fun h => h.1 hprefix
      dsimp only at h
      split at h <;> cases h

theorem ofKey?_eq_none_iff : ofKey? key keySpan = .ok none ↔ Grammar.Unknown key.toList := by
  have hwords : key ∉ Grammar.words ↔ ∀ word ∈ Grammar.words, key.toList ≠ word.toList := by
    simp only [ne_eq, String.toList_inj]
    exact ⟨fun h word hword heq => h (heq ▸ hword), fun h hword => h key hword rfl⟩
  have hopenings : (∀ o ∈ openings, ¬ o.1.toList <+: key.toList) ↔
      ∀ opening ∈ ["field[", "value[", "valueItemType["], ¬ opening.toList <+: key.toList := by
    constructor
    · intro h opening hopening
      obtain ⟨o, ho, rfl⟩ := mem_openings.1 hopening
      exact h o ho
    · exact fun h o ho => h o.1 (mem_openings.2 ⟨o, ho, rfl⟩)
  rw [Grammar.Unknown, ← hwords, ← hopenings, ← ofWord?_eq_none_iff, ofKey?]
  cases ofWord? key with
  | some slot => simp
  | none => simpa using ofBracketed?_eq_none_iff

end Slot

namespace Grammar

section

variable {source : String} {place : List Char × Nat} {places : List (List Char × Nat)}
  {line : Line} {lines : List Line} {d next : Draft} {fault : Fault}

theorem Placed.keyOf?_eq (h : Placed source place line) : keyOf? place.1 = line.key? := by
  cases h with
  | continuation _ hindented => exact if_pos hindented
  | entry _ _ hindented hsplit =>
    rw [keyOf?, if_neg hindented, separate?_eq_some_iff.2 hsplit, Line.key?, String.toList_ofList]
    rfl

/-- A line that is taken is warned about if its key is unknown. -/
theorem Placed.warnings_step (h : Placed source place line) (hstep : d.step line = .ok next) :
    next.warnings = d.warnings ++ (unknownKey? place).toList := by
  have hnumber := h.starts.line
  rw [unknownKey?, h.keyOf?_eq]
  cases Draft.takes_of_step hstep with
  | skipped _ => exact (List.append_nil _).symm
  | more _ => exact (List.append_nil _).symm
  | named hslot =>
    have hknown := mt Slot.ofKey?_eq_none_iff.2 (by rw [hslot]; simp)
    rw [Line.key?, Option.bind_some, if_neg hknown]
    exact (List.append_nil _).symm
  | unknown hslot =>
    rw [Line.key?, Option.bind_some, if_pos (Slot.ofKey?_eq_none_iff.1 hslot),
      String.ofList_toList, ← hnumber]
    rfl

theorem Placed.line_of_fault (h : Placed source place line) (hstep : d.step line = .error fault) :
    fault.span.start.line = place.2 := by
  rcases Draft.fault_of_step hstep with ⟨-, text, rfl⟩ | ⟨-, key, value, span, rfl⟩
  · exact h.number_eq
  · exact h.number_eq

/-- The warnings are those of the lines up to the first fault. -/
theorem warnings_readLines (h : List.Forall₂ (Placed source) places lines) (d : Draft) :
    match (d.readLines lines).2 with
    | none => (d.readLines lines).1.warnings = d.warnings ++ places.filterMap unknownKey?
    | some fault => ∃ before failing after, places = before ++ failing :: after ∧
        failing.2 = fault.span.start.line ∧
        (d.readLines lines).1.warnings = d.warnings ++ before.filterMap unknownKey? := by
  induction h generalizing d with
  | nil => simp [Draft.readLines]
  | @cons place line places lines hplaced _ ih =>
    unfold Draft.readLines
    cases hstep : d.step line with
    | error fault => exact ⟨[], place, places, rfl, (hplaced.line_of_fault hstep).symm, by simp⟩
    | ok next =>
      have hrest := ih next
      rw [hplaced.warnings_step hstep] at hrest
      have hcons (others : List (List Char × Nat)) :
          d.warnings ++ (unknownKey? place).toList ++ others.filterMap unknownKey? =
            d.warnings ++ (place :: others).filterMap unknownKey? := by
        cases hwarning : unknownKey? place <;> simp [hwarning]
      dsimp only
      split at hrest
      · exact hrest.trans (hcons places)
      · obtain ⟨before, failing, after, rfl, hline, hwarnings⟩ := hrest
        exact ⟨place :: before, failing, after, rfl, hline, hwarnings.trans (hcons before)⟩

end

end Grammar

/-! ## Value classes without a field -/

/-- The key of a sort that a line names, with the number of the line. -/
def Line.use? (sort : Slot → Option Key) (line : Line) : Option (Key × Nat) :=
  (line.slot?.bind sort).map (·, line.span.start.line)

namespace Draft

variable {d : Draft} {given : List Slot} {lines : List Line} {sort : Slot → Option Key}
  {slotOf : Key → Slot}

/-- The keys of a sort and where their sections start, told by the slots alone. -/
theorem map_keyed_start (hsort : ∀ slot key, sort slot = some key → slot = slotOf key)
    (hnodup : d.slots.Nodup) :
    (d.keyed sort).map (fun entry => (entry.1, entry.2.span.start.line)) =
      (d.slots.filterMap sort).filterMap fun key =>
        (d.span? (slotOf key)).map fun span => (key, span.start.line) := by
  rw [keyed, List.map_filterMap, slots, List.filterMap_map, List.filterMap_filterMap]
  refine List.filterMap_congr fun s hs => ?_
  rw [Function.comp_apply]
  cases hkey : sort s.slot with
  | none => rfl
  | some key =>
    have hspan : d.span? (slotOf key) = some s.span := by
      rw [← hsort _ _ hkey, span?, find?, find?_of_mem hnodup hs]
      rfl
    simp [hspan]

theorem map_fst_use? (lines : List Line) :
    (lines.filterMap (Line.use? sort)).map Prod.fst = (lines.filterMap Line.slot?).filterMap sort := by
  rw [List.map_filterMap, List.filterMap_filterMap]
  refine List.filterMap_congr fun line _ => ?_
  rw [Line.use?, Option.map_map]
  exact Option.map_id'

/-- The first use of a key is the first line that names its slot. -/
theorem find?_use? (hsort : ∀ slot key, sort slot = some key ↔ slot = slotOf key) (key : Key)
    (lines : List Line) :
    (lines.filterMap (Line.use? sort)).find? (·.1 = key) =
      (lines.find? (·.slot? = some (slotOf key))).map fun line => (key, line.span.start.line) := by
  induction lines with
  | nil => rfl
  | cons line lines ih =>
    have hslot : line.slot?.bind sort = some key ↔ line.slot? = some (slotOf key) := by
      rw [Option.bind_eq_some_iff]
      simp only [hsort, exists_eq_right]
    by_cases hnamed : line.slot? = some (slotOf key)
    · have huse : line.use? sort = some (key, line.span.start.line) := by
        rw [Line.use?, hslot.2 hnamed]
        rfl
      rw [List.filterMap_cons_some huse, List.find?_cons_of_pos (by simp),
        List.find?_cons_of_pos (by simpa using hnamed)]
      rfl
    · rw [List.find?_cons_of_neg (by simpa using hnamed), ← ih]
      cases huse : line.use? sort with
      | none => rw [List.filterMap_cons_none huse]
      | some use =>
        rw [List.filterMap_cons_some huse, List.find?_cons_of_neg]
        obtain ⟨other, hother, rfl⟩ := Option.map_eq_some_iff.1 huse
        rw [decide_eq_true_iff]
        rintro rfl
        exact hnamed (hslot.1 hother)

/-- The sections of a sort are for its keys, each starting at the first use of its key. -/
theorem Enters.map_keyed_start (hsort : ∀ slot key, sort slot = some key ↔ slot = slotOf key)
    (h : (empty.readLines lines).2 = none) :
    ((empty.readLines lines).1.keyed sort).map (fun entry => (entry.1, entry.2.span.start.line)) =
      Grammar.firstUses (lines.filterMap (Line.use? sort)) := by
  have henters := enters_empty.readLines h
  rw [List.nil_append] at henters
  have hnodup : (empty.readLines lines).1.slots.Nodup := by
    rw [henters.slots]
    exact nodup_eraseDups _
  have hinj : ∀ slot slot' key, sort slot = some key → sort slot' = some key → slot = slot' :=
    fun slot slot' key hs hs' => ((hsort _ _).1 hs).trans ((hsort _ _).1 hs').symm
  rw [Draft.map_keyed_start (fun slot key => (hsort slot key).1) hnodup, henters.slots,
    filterMap_eraseDups _ hinj, Grammar.firstUses, map_fst_use?]
  refine List.filterMap_congr fun key _ => ?_
  rw [find?_use? hsort, enters_empty.span?_readLines h, show empty.span? (slotOf key) = none from rfl,
    Option.none_or, Option.map_map]
  rfl

end Draft

namespace Grammar

section

variable {source : String} {place : List Char × Nat} {places : List (List Char × Nat)}
  {line : Line} {lines : List Line} {sort : Slot → Option Key} {opening : String}
  {slotOf : Key → Slot}

theorem Placed.reads (h : Placed source place line) : Reads place line := by
  cases h with
  | continuation hspan hindented => exact .continuation hindented hspan.line
  | entry _ hkey hindented hsplit =>
    exact .entry hindented (separate?_eq_some_iff.2 hsplit) hkey.line

/-- A line uses the key of a sort that stands in brackets behind its opening. -/
theorem Placed.use?_eq (h : Placed source place line) (hclosed : KeyClosed place.1)
    (hsort : Sorts sort opening slotOf) :
    line.use? sort = ((keyOf? place.1).bind (keyIn? opening)).map (·, place.2) := by
  rw [Line.use?, h.starts.line, h.keyOf?_eq]
  cases h with
  | continuation _ _ => rfl
  | @entry text key value number keySpan span _ _ hindented hsplit =>
    rw [Line.slot?, Line.key?, Option.bind_some, String.toList_ofList]
    cases hkey : Slot.ofKey? (String.ofList (trimChars key)) keySpan with
    | ok slot? => rw [hsort.bind_eq hkey]
    | error fault =>
      -- the bracket of such a key is left open
      obtain ⟨hopen, -⟩ := Slot.ofKey?_error hkey
      rw [String.toList_ofList, ← keyClosed_iff hindented (separate?_eq_some_iff.2 hsplit)] at hopen
      exact absurd hclosed hopen

theorem uses_eq (h : List.Forall₂ (Placed source) places lines)
    (hclosed : ∀ place ∈ places, KeyClosed place.1) (hsort : Sorts sort opening slotOf) :
    uses opening places = lines.filterMap (Line.use? sort) := by
  induction h with
  | nil => rfl
  | @cons place line places lines hplaced _ ih =>
    obtain ⟨hclosed, hothers⟩ := List.forall_mem_cons.1 hclosed
    have hrest := ih hothers
    unfold uses at hrest ⊢
    rw [List.filterMap_cons, List.filterMap_cons, hrest, hplaced.use?_eq hclosed hsort]

theorem mem_map_fst_firstUses {key : Key} {uses : List (Key × Nat)} :
    key ∈ (firstUses uses).map Prod.fst ↔ key ∈ uses.map Prod.fst := by
  simp only [firstUses, List.mem_map, List.mem_filterMap, List.mem_eraseDups]
  constructor
  · rintro ⟨use, ⟨other, -, hfind⟩, rfl⟩
    exact ⟨use, List.mem_of_find?_eq_some hfind, rfl⟩
  · rintro ⟨use, huse, rfl⟩
    have hsome : (uses.find? (·.1 = use.1)).isSome :=
      List.find?_isSome.2 ⟨use, huse, decide_eq_true rfl⟩
    obtain ⟨first, hfirst⟩ := Option.isSome_iff_exists.1 hsome
    exact ⟨first, ⟨use.1, ⟨use, huse, rfl⟩, hfirst⟩, by simpa using List.find?_some hfirst⟩

/-- Of the value classes in a draft, those are idle whose keys have no field rule anywhere. -/
theorem overrideWarnings_eq (h : List.Forall₂ (Placed source) places lines)
    (hnone : (Draft.empty.readLines lines).2 = none) :
    (Draft.empty.readLines lines).1.overrideWarnings = idleOverrides places := by
  have hruns := readLines_cases Draft.empty (h.imp fun _ _ => Placed.reads)
  rw [hnone] at hruns
  obtain ⟨-, -, hclosed, -⟩ := hruns.resolve_right (by rintro ⟨_, hfault, -⟩; cases hfault)
  have hfields := Draft.Enters.map_keyed_start sorts_field.eq_some_iff hnone
  have htypes := Draft.Enters.map_keyed_start sorts_itemType.eq_some_iff hnone
  rw [← uses_eq h hclosed sorts_field] at hfields
  rw [← uses_eq h hclosed sorts_itemType] at htypes
  have hfield (key : Key) :
      ((Draft.empty.readLines lines).1.keyed Slot.field?).any (·.1 = key) = true ↔
        key ∈ (uses "field[" places).map Prod.fst := by
    rw [← mem_map_fst_firstUses, ← hfields, List.map_map, List.any_eq_true, List.mem_map]
    simp
  rw [idleOverrides, ← htypes, List.filterMap_map, Draft.overrideWarnings]
  refine List.filterMap_congr fun entry _ => ?_
  simp only [Function.comp_apply, hfield]

/-! ## Loading -/

/-- **Nothing in a specification is ignored silently.** A source that loads has a warning for each
unknown key, and then one for each value class without a field rule. A source that is refused for one
of its lines has the warnings of the lines before, and one that is refused as a whole has those of all
lines; if a line has no separator, no key is looked at. -/
theorem read_warns (source : String) :
    match (Specification.read source).result with
    | .ok _ =>
      (Specification.read source).warnings =
        (significant source).filterMap unknownKey? ++ idleOverrides (significant source)
    | .error fault =>
      match fault.kind with
      | .missingSeparator => (Specification.read source).warnings = []
      | .orphanContinuation | .malformedKey =>
        ∃ before failing after, significant source = before ++ failing :: after ∧
          failing.2 = fault.span.start.line ∧
          (Specification.read source).warnings = before.filterMap unknownKey?
      | .missingFormat | .unsupportedFormat | .missingEntries | .emptyPathSegment =>
        (Specification.read source).warnings = (significant source).filterMap unknownKey? := by
  cases hlines : Line.readAll source with
  | error fault =>
    have hkind := (first_of_readAll_error hlines).1
    simp only [Specification.read, hlines, hkind]
  | ok lines =>
    have hplaced := forall₂_placed hlines
    have hwarnings := warnings_readLines hplaced Draft.empty
    cases hfault : (Draft.empty.readLines lines).2 with
    | some fault =>
      rw [hfault] at hwarnings
      obtain ⟨line, -, d, hstep⟩ := Draft.exists_step_of_fault hfault
      simp only [Specification.read, hlines, hfault]
      rcases Draft.fault_of_step hstep with ⟨hkind, -⟩ | ⟨hkind, -⟩ <;> rw [hkind] <;>
        exact hwarnings
    | none =>
      rw [hfault] at hwarnings
      cases hfinish : (Draft.empty.readLines lines).1.finish
          (Span.ofEnd (physicalLines source).length) with
      | error fault =>
        simp only [Specification.read, hlines, hfault, hfinish]
        rcases Draft.fault_of_finish hfinish with ⟨hkind | hkind, -⟩ | ⟨hkind, -⟩ | ⟨hkind, -⟩ <;>
          rw [hkind] <;> exact hwarnings
      | ok spec =>
        simp only [Specification.read, hlines, hfault, hfinish]
        rw [overrideWarnings_eq hplaced hfault]
        exact congrArg (· ++ _) hwarnings

/-- The value class of `x` is idle and named at its first line, the one of `y` has a field. -/
example : (Specification.read ("comment: none\nvalueItemType[x]: T\nvalueItemType[y]: T\n" ++
    "format: json\nentries: a\nvalueItemType[x]: U\nfield[y]: b")).warnings =
      [.unknownKey 1 "comment", .overrideWithoutField 2 (.symbol "x")] := by
  decide +kernel

end

end Grammar

end Extractor
