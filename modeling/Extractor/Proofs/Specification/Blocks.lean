import Extractor.Proofs.Specification.Loading
import Extractor.Proofs.Specification.Sections
/-!
# What lines with one key add up to

A source is a list of blocks, each a line with a key and the indented lines behind it. What a
specification holds for a key are the texts of all blocks with this key, in the order of the source
and whatever stands between them (`collected?_of_load`). There is one rule for each key that is
named, in the order in which the keys are first named. Blocks with other keys add nothing.
-/

namespace Extractor.Grammar

open Text

/-- A line with a key, and the indented lines behind it. -/
structure Block where
  key : List Char
  /-- The value and the indented lines, each of them behind a line break. -/
  text : List Char
  deriving DecidableEq, Repr

/-- The indented lines up to the next other line. -/
def continuation (lines : List (List Char × Nat)) : List Char :=
  (lines.takeWhile fun line => Indented line.1).flatMap fun line => '\n' :: trimChars line.1

def blocksFrom : List (List Char × Nat) → List Block
  | [] => []
  | line :: rest =>
    if Indented line.1 then blocksFrom rest
    else
      match Line.separate? line.1 with
      | some (key, value) =>
        ⟨trimChars key, trimChars value ++ continuation rest⟩ :: blocksFrom rest
      | none => blocksFrom rest

def blocks (source : String) : List Block := blocksFrom (significant source)

/-- The texts of the blocks whose key is one of those meant, one behind the other. -/
def textFor (names : List Char → Bool) (blocks : List Block) : List Char :=
  (blocks.filter (names ·.key)).flatMap Block.text

/-- The text for a key that is a word. -/
def wordText (word : String) (blocks : List Block) : String :=
  String.ofList (textFor (· == word.toList) blocks)

/-- The key in brackets behind an opening. -/
def keyIn? (opening : String) (key : List Char) : Option Key :=
  ((opening.toList.isPrefixOf? key).bind ([']'].isSuffixOf? ·)).map (Key.parse <| String.ofList ·)

/-- One rule for each key in brackets behind the opening, in the order of their first blocks. -/
def rules (opening : String) (blocks : List Block) : List Rule :=
  (blocks.filterMap (keyIn? opening ·.key)).eraseDups.map fun key =>
    ⟨key, String.ofList (textFor (keyIn? opening · == some key) blocks)⟩

def words : List String :=
  ["format", "entries", "introduction", "entryid", "entrytype", "entryvalidation",
    "postprocessingmapping", "postprocessingfields"]

/-- The key means something in a specification. -/
def known (key : List Char) : Bool :=
  words.any (·.toList == key) || ["field[", "value[", "valueItemType["].any fun opening =>
    (keyIn? opening key).isSome

def unlessBlank (text : String) : Option String := if isBlankText text then none else some text

/-- The specification that some blocks add up to, if they tell its format. -/
def collected? (blocks : List Block) : Option Specification :=
  (Format.parse? (trim (wordText "format" blocks))).map fun format => {
    format := format
    entriesPath := (pieces '/' (trim (wordText "entries" blocks))).map trim
    introduction := unlessBlank (wordText "introduction" blocks)
    fieldRules := rules "field[" blocks
    valueRules := rules "value[" blocks
    typeOverrides := (rules "valueItemType[" blocks).map fun rule =>
      (rule.key, ValueClass.parse rule.template)
    entryId := wordText "entryid" blocks
    entryType := wordText "entrytype" blocks
    validation := unlessBlank (wordText "entryvalidation" blocks)
    postMapping := unlessBlank (wordText "postprocessingmapping" blocks)
    postFields := unlessBlank (wordText "postprocessingfields" blocks) }

/-! ## Texts -/

section

variable {names : List Char → Bool} {opening : String} {lines : List (List Char × Nat)}
  {blocks : List Block}

/-- What is accumulated line by line is what the blocks add up to. -/
theorem accumulated_eq (names : List Char → Bool) (on : Bool) (lines : List (List Char × Nat)) :
    accumulated names on lines =
      (if on then continuation lines else []) ++ textFor names (blocksFrom lines) := by
  induction lines generalizing on with
  | nil => cases on <;> rfl
  | cons line lines ih =>
    by_cases hindented : Indented line.1
    · have hcontinuation : continuation (line :: lines) =
          '\n' :: trimChars line.1 ++ continuation lines := by
        simp [continuation, hindented]
      rw [accumulated_cons_of_indented hindented, ih, hcontinuation, blocksFrom, if_pos hindented]
      cases on <;> simp
    · have hcontinuation : continuation (line :: lines) = [] := by
        simp [continuation, hindented]
      rw [hcontinuation, ite_self, List.nil_append, blocksFrom, if_neg hindented]
      cases hsplit : Line.separate? line.1 with
      | some split =>
        obtain ⟨key, value⟩ := split
        rw [accumulated_cons_of_separate hindented hsplit, ih]
        cases hname : names (trimChars key) <;> simp [textFor, hname]
      | none =>
        have hskip : accumulated names on (line :: lines) = accumulated names false lines := by
          obtain ⟨text, number⟩ := line
          rw [accumulated, if_neg hindented, hsplit]
        rw [hskip, ih]
        rfl

theorem textFor_filter {p : List Char → Bool} (h : ∀ key, names key = true → p key = true) :
    textFor names (blocks.filter (p ·.key)) = textFor names blocks := by
  have hfilter : ∀ block : Block, (names block.key && p block.key) = names block.key := by
    intro block
    cases hname : names block.key with
    | false => rfl
    | true => rw [h _ hname]; rfl
  simp only [textFor, List.filter_filter, hfilter]

theorem wordText_filter_known {word : String} (h : word ∈ words) :
    wordText word (blocks.filter (known ·.key)) = wordText word blocks := by
  rw [wordText, textFor_filter, wordText]
  intro key hkey
  rw [beq_iff_eq] at hkey
  have hany : words.any (·.toList == key) = true :=
    List.any_eq_true.2 ⟨word, h, beq_iff_eq.2 hkey.symm⟩
  rw [known, hany, Bool.true_or]

theorem rules_filter_known (h : opening ∈ ["field[", "value[", "valueItemType["]) :
    rules opening (blocks.filter (known ·.key)) = rules opening blocks := by
  have hknown : ∀ key, (keyIn? opening key).isSome = true → known key = true := by
    intro key hkey
    rw [known, List.any_eq_true.2 ⟨opening, h, hkey⟩, Bool.or_true]
  have hkeys : (blocks.filter (known ·.key)).filterMap (keyIn? opening ·.key) =
      blocks.filterMap (keyIn? opening ·.key) := by
    rw [List.filterMap_filter]
    refine List.filterMap_congr fun block _ => ?_
    cases hkey : keyIn? opening block.key with
    | none => rw [ite_self]
    | some key => rw [if_pos (hknown _ (by rw [hkey]; rfl))]
  rw [rules, hkeys, rules]
  refine List.map_congr_left fun key _ => ?_
  rw [textFor_filter]
  intro other hother
  refine hknown other ?_
  rw [beq_iff_eq] at hother
  rw [hother]
  rfl

end

/-- Blocks with other keys add nothing. -/
theorem collected?_filter_known (blocks : List Block) :
    collected? (blocks.filter (known ·.key)) = collected? blocks := by
  simp (disch := decide) only [collected?, wordText_filter_known, rules_filter_known]

/-! ## Keys in brackets -/

/-- The slots of a sort are those that an opening leads to, each with its own key. -/
structure Sorts (sort : Slot → Option Key) (opening : String) (slotOf : Key → Slot) : Prop where
  mem : (opening, slotOf) ∈ Slot.openings
  eq_some_iff : ∀ slot key, sort slot = some key ↔ slot = slotOf key

theorem sorts_field : Sorts Slot.field? "field[" .field :=
  ⟨by simp [Slot.openings], fun slot key => by cases slot <;> simp [Slot.field?]⟩

theorem sorts_value : Sorts Slot.value? "value[" .value :=
  ⟨by simp [Slot.openings], fun slot key => by cases slot <;> simp [Slot.value?]⟩

theorem sorts_itemType : Sorts Slot.itemType? "valueItemType[" .itemType :=
  ⟨by simp [Slot.openings], fun slot key => by cases slot <;> simp [Slot.itemType?]⟩

section

variable {sort : Slot → Option Key} {opening : String} {slotOf : Key → Slot} {key : List Char}
  {name : Key} {keySpan : Span} {slot? : Option Slot}

theorem keyIn?_eq_some_iff : keyIn? opening key = some name ↔
    ∃ inner, key = opening.toList ++ (inner ++ [']']) ∧ Key.parse (String.ofList inner) = name := by
  simp only [keyIn?, Option.map_eq_some_iff, Option.bind_eq_some_iff, isPrefixOf?_eq_some_iff,
    isSuffixOf?_eq_some_iff]
  constructor
  · rintro ⟨inner, ⟨rest, hkey, rfl⟩, hname⟩
    exact ⟨inner, hkey, hname⟩
  · rintro ⟨inner, hkey, hname⟩
    exact ⟨inner, ⟨_, hkey, rfl⟩, hname⟩

/-- A key that can be read is of a sort if it stands in brackets behind the opening. -/
theorem Sorts.bind_eq (h : Sorts sort opening slotOf)
    (hkey : Slot.ofKey? (String.ofList key) keySpan = .ok slot?) :
    slot?.bind sort = keyIn? opening key := by
  ext name
  rw [Option.bind_eq_some_iff, keyIn?_eq_some_iff]
  simp only [h.eq_some_iff, exists_eq_right]
  rw [Slot.ofKey?_ok_iff_of_opening h.mem hkey, String.toList_ofList]
  constructor
  · rintro ⟨inner, hinner, rfl⟩
    exact ⟨inner.toList, hinner, by rw [String.ofList_toList]⟩
  · rintro ⟨inner, hinner, rfl⟩
    exact ⟨String.ofList inner, by rwa [String.toList_ofList], rfl⟩

theorem Sorts.names (h : Sorts sort opening slotOf) (name : Key) :
    Names (keyIn? opening · == some name) (slotOf name) := by
  intro key keySpan slot? hkey
  rw [beq_iff_eq, ← h.bind_eq hkey, Option.bind_eq_some_iff]
  simp only [h.eq_some_iff, exists_eq_right]

/-- The key lines name the slots of the keys of their blocks. -/
theorem Sorts.filterMap_slot? (h : Sorts sort opening slotOf) {sources : List (List Char × Nat)}
    {lines : List Line} (hreads : List.Forall₂ Reads sources lines)
    (hclosed : ∀ source ∈ sources, KeyClosed source.1) :
    (lines.filterMap Line.slot?).filterMap sort =
      (blocksFrom sources).filterMap (keyIn? opening ·.key) := by
  rw [List.filterMap_filterMap]
  induction hreads with
  | nil => rfl
  | @cons source line sources lines hline hreads ih =>
    obtain ⟨hclosed, hothers⟩ := List.forall_mem_cons.1 hclosed
    rw [List.filterMap_cons, ih hothers, blocksFrom]
    cases hline with
    | continuation hindented _ => rw [if_pos hindented]; rfl
    | @entry text key value number keySpan span hindented hsplit _ =>
      rw [if_neg hindented, hsplit, List.filterMap_cons, Line.slot?]
      cases hkey : Slot.ofKey? (String.ofList (trimChars key)) keySpan with
      | error fault =>
        obtain ⟨hopen, -⟩ := Slot.ofKey?_error hkey
        rw [String.toList_ofList, ← keyClosed_iff hindented hsplit] at hopen
        exact absurd hclosed hopen
      | ok slot? => rw [h.bind_eq hkey]

end

/-! ## Loading -/

section

variable {source : String} {spec : Specification} {lines : List Line} {d : Draft} {atEnd : Span}

theorem readAll_of_load (h : Specification.load source = .ok spec) :
    ∃ lines, List.Forall₂ Reads (significant source) lines ∧
      (Draft.empty.readLines lines).2 = none ∧
      (Draft.empty.readLines lines).1.finish (Span.ofEnd (physicalLines source).length) =
        .ok spec := by
  rcases readFrom_cases 0 0 (source.toList.splitOn '\n') with
    ⟨lines, hlines, hreads⟩ | ⟨fault, hfault, -⟩
  · rw [load_of_readAll_ok hlines] at h
    refine ⟨lines, hreads, ?_⟩
    split at h
    · cases h
    · next hnone => exact ⟨hnone, h⟩
  · rw [load_of_readAll_error hfault] at h
    cases h

/-- The texts and rules of the draft from which a specification is made. -/
theorem draft_of_load (h : Specification.load source = .ok spec) :
    ∃ (d : Draft) (atEnd : Span), d.finish atEnd = .ok spec ∧
      (∀ slot word, slot.word? = some word → d.text slot = wordText word (blocks source)) ∧
      ∀ sort opening slotOf, Sorts sort opening slotOf →
        d.rules sort = rules opening (blocks source) := by
  obtain ⟨lines, hreads, hnone, hfinish⟩ := readAll_of_load h
  have hruns := readLines_cases Draft.empty hreads
  rw [hnone] at hruns
  obtain ⟨-, -, hclosed, htexts⟩ := hruns.resolve_right (by rintro ⟨_, hfault, -⟩; cases hfault)
  have htext (names : List Char → Bool) (slot : Slot) (hnames : Names names slot) :
      (Draft.empty.readLines lines).1.text slot = String.ofList (textFor names (blocks source)) := by
    rw [← String.toList_inj, htexts names slot hnames, accumulated_eq, String.toList_ofList]
    rfl
  refine ⟨_, _, hfinish, fun slot word hword => htext _ _ (names_word hword), ?_⟩
  intro sort opening slotOf hsort
  have henters := Draft.enters_empty.readLines hnone
  rw [List.nil_append] at henters
  have hnodup : (Draft.empty.readLines lines).1.slots.Nodup := by
    rw [henters.slots]
    exact nodup_eraseDups _
  have hinj : ∀ slot slot' key, sort slot = some key → sort slot' = some key → slot = slot' :=
    fun slot slot' key hs hs' =>
      ((hsort.eq_some_iff _ _).1 hs).trans ((hsort.eq_some_iff _ _).1 hs').symm
  rw [Draft.rules_eq (fun slot key => (hsort.eq_some_iff slot key).1) hnodup, henters.slots,
    filterMap_eraseDups _ hinj, hsort.filterMap_slot? hreads hclosed]
  refine List.map_congr_left fun key _ => ?_
  rw [htext _ _ (hsort.names key)]

theorem format_ok {format : Format} (h : d.format atEnd = .ok format) :
    Format.parse? (trim (d.text .format)) = some format := by
  unfold Draft.format at h
  dsimp only at h
  split_ifs at h
  split at h
  · next hformat => rw [hformat, Except.ok.inj h]
  · cases h

theorem entriesPath_ok {path : List String} (h : d.entriesPath atEnd = .ok path) :
    path = (pieces '/' (trim (d.text .entries))).map trim := by
  unfold Draft.entriesPath at h
  dsimp only at h
  split_ifs at h
  exact (Except.ok.inj h).symm

end

/-- **A specification holds what its lines with one key add up to.** -/
theorem collected?_of_load {source : String} {spec : Specification}
    (h : Specification.load source = .ok spec) :
    collected? (blocks source) = some spec ∧
      collected? ((blocks source).filter (known ·.key)) = some spec := by
  rw [collected?_filter_known, and_self]
  obtain ⟨d, atEnd, hfinish, htext, hrules⟩ := draft_of_load h
  unfold Draft.finish at hfinish
  cases hformat : d.format atEnd with
  | error fault =>
    rw [hformat] at hfinish
    cases hfinish
  | ok format =>
    cases hpath : d.entriesPath atEnd with
    | error fault =>
      rw [hformat, hpath] at hfinish
      cases hfinish
    | ok path =>
      rw [hformat, hpath] at hfinish
      have hspec := Except.ok.inj hfinish
      have hoverrides : ((d.keyed Slot.itemType?).map fun entry =>
          (entry.1, ValueClass.parse entry.2.text)) =
            (rules "valueItemType[" (blocks source)).map fun rule =>
              (rule.key, ValueClass.parse rule.template) := by
        rw [← hrules _ _ _ sorts_itemType, Draft.rules, List.map_map]
        rfl
      rw [← hspec, hoverrides, hrules _ _ _ sorts_field, hrules _ _ _ sorts_value,
        entriesPath_ok hpath, collected?, ← htext .format _ rfl, format_ok hformat]
      simp only [Draft.textUnlessBlank, unlessBlank, Option.map_some, htext .entries _ rfl,
        htext .introduction _ rfl, htext .entryId _ rfl, htext .entryType _ rfl,
        htext .validation _ rfl, htext .postMapping _ rfl, htext .postFields _ rfl]

/-- Two spellings of one key, with an unknown key and another rule between them. -/
theorem collected?_of_load_interleaved :
    let source := "format: xml\nentries: a/b\nfield[x]: 1\nnote: 2\n 3\nfield[y]: 4\nfield[ x ]: 5\n 6"
    ∃ spec, Specification.load source = .ok spec ∧
      (collected? (blocks source) = some spec ∧
        collected? ((blocks source).filter (known ·.key)) = some spec) ∧
      spec.fieldRules = [⟨.symbol "x", "15\n6"⟩, ⟨.symbol "y", "4"⟩] := by
  intro source
  have hload : Specification.load source = .ok
      { format := .xml, entriesPath := ["a", "b"], introduction := none
        fieldRules := [⟨.symbol "x", "15\n6"⟩, ⟨.symbol "y", "4"⟩]
        valueRules := [], typeOverrides := [], entryId := "", entryType := ""
        validation := none, postMapping := none, postFields := none } := by
    decide +kernel
  exact ⟨_, hload, collected?_of_load hload, rfl⟩

end Extractor.Grammar
