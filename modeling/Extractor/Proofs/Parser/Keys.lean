import Extractor.Proofs.Parser.Braces
import Extractor.Proofs.Parser.Variables
import Extractor.Proofs.Specification.Validity
import Extractor.Proofs.Text.Literal
/-!
# Keys of the emitted code

The code inserts and reads a field under the expression for its key, the same that a preview shows
it under. A literal key stands between the quotes of this expression letter by letter, so it names
the field that it spells if none of its letters has to be escaped, and then no other such key names
it (`literal_keys`). With a quote or a backslash in it the key names another field or none
(`literal_keys_not_named`).
-/

namespace Extractor

open Text (Verbatim denoted?)

/-- The key whose field a segment reads. -/
def Segment.key? : Segment → Option Key
  | .placeholder (.field key) => some key
  | _ => none

namespace Grammar

/-! ## Keys of rules -/

section

variable {text key value : List Char} {c : Char} {lines : List (List Char × Nat)} {block : Block}
  {opening source : String} {rule : Rule} {spec : Specification}

theorem Splits.not_mem_key (h : Splits text key value) (hc : c ∉ text) : c ∉ key := by
  cases h with
  | inside hkey hfirst =>
    rw [hfirst.1] at hc
    exact fun hmem => hc (List.mem_append_left _ (List.mem_append_left _ hmem))
  | atEnd hkey hnone => exact fun hmem => hc (List.mem_append_left _ hmem)

theorem not_mem_key_of_mem_blocksFrom (hlines : ∀ line ∈ lines, '\n' ∉ line.1)
    (h : block ∈ blocksFrom lines) : '\n' ∉ block.key := by
  induction lines with
  | nil => exact absurd h List.not_mem_nil
  | cons line lines ih =>
    obtain ⟨hline, hothers⟩ := List.forall_mem_cons.1 hlines
    unfold blocksFrom at h
    split at h
    · exact ih hothers h
    · split at h
      · next key value hsplit =>
        rcases List.mem_cons.1 h with rfl | h
        · exact Text.not_mem_trimChars ((separate?_eq_some_iff.1 hsplit).not_mem_key hline)
        · exact ih hothers h
      · exact ih hothers h

/-- The key of a rule stands on one line. -/
theorem not_mem_written (h : rule ∈ rules opening (blocks source)) :
    '\n' ∉ rule.key.written.toList := by
  have hkey : rule.key ∈ (rules opening (blocks source)).map (·.key) := List.mem_map_of_mem h
  rw [map_key_rules, List.mem_eraseDups] at hkey
  obtain ⟨block, hblock, hin⟩ := List.mem_filterMap.1 hkey
  obtain ⟨inner, hinner, hparse⟩ := keyIn?_eq_some_iff.1 hin
  have hbreak := not_mem_key_of_mem_blocksFrom
    (fun _ hline => not_mem_of_mem_significant hline) hblock
  rw [hinner] at hbreak
  rw [← hparse, Key.written_parse, Text.toList_trim, String.toList_ofList]
  exact Text.not_mem_trimChars fun hmem =>
    hbreak (List.mem_append_right _ (List.mem_append_left _ hmem))

theorem not_mem_written_of_load (h : Specification.load source = .ok spec)
    (hrule : rule ∈ spec.rules) : '\n' ∉ rule.key.written.toList := by
  obtain ⟨d, atEnd, hfinish, -, hrules⟩ := draft_of_load h
  obtain ⟨format, path, -, -, rfl⟩ := finish_ok hfinish
  rw [Specification.rules, hrules _ _ _ sorts_field, hrules _ _ _ sorts_value] at hrule
  rcases List.mem_append.1 hrule with hrule | hrule
  · exact not_mem_written hrule
  · exact not_mem_written hrule

end

end Grammar

namespace Parser

/-- The keys under which the code of an entry inserts and reads. -/
def keys (spec : Specification) : List Key :=
  spec.rules.map (·.key) ++
    (templates spec).flatMap fun template =>
      (Template.scan (Text.trim template)).filterMap Segment.key?

/-- The statements of a rule insert the variable under the key, if it holds something. -/
def Inserts (key : Key) (v : Variable) (block : List Stmt) : Prop :=
  ∃ declaration, block = [declaration,
    .onlyIf ("!" ++ v.name ++ ".isEmpty()")
      ("entry->insert(" ++ key.expression ++ ", " ++ v.inserted ++ ");")]

/-- The code for a segment reads under the key that the segment names. -/
def Reads (segment : Segment) (code : String) : Prop :=
  ∀ key ∈ segment.key?, code = "PlainTextValue::text(entry->value(" ++ key.expression ++ "))"

/-! ## Inserting and reading -/

section

variable {spec : Specification} {source text : String}

theorem forall₂_inserts (spec : Specification) (store : Store) :
    List.Forall₂ (fun pair block => Inserts pair.1 pair.2 block)
      (((Preview.ofStore spec store).all.map Rendered.key).zip (declared spec)) (blocks spec) := by
  rw [map_key_all, List.zip_map_left, List.forall₂_map_left_iff]
  refine (assigns_blocks spec).imp fun pair block h => ?_
  cases h with
  | mk rest => exact ⟨_, rfl⟩

theorem blocks_isInfix (spec : Specification) : (blocks spec).flatten <:+: assembleEntry spec := by
  rw [assembleEntry_eq]
  refine ⟨mappingHook spec ++ [newEntry], fieldsHook spec ++ setter "setId" spec.entryId ++
    setter "setType" spec.entryType ++ [appendStmt spec.validation], ?_⟩
  simp only [List.append_assoc, List.cons_append, List.nil_append]

theorem reads_render (segment : Segment) : Reads segment (Template.expressions.render segment) := by
  intro key hkey
  cases segment with
  | text text => cases hkey
  | placeholder placeholder =>
    cases placeholder with
    | field key' =>
      cases hkey
      rfl
    | list path => cases hkey
    | join path => cases hkey

theorem forall₂_reads (segments : List Segment) :
    List.Forall₂ Reads segments (segments.map Template.expressions.render) := by
  rw [List.forall₂_map_right_iff, List.forall₂_same]
  exact fun segment _ => reads_render segment

/-- For a rule it is quotes and backslashes that matter. -/
theorem verbatim_iff_of_rule (h : Specification.load source = .ok spec)
    (htext : .literal text ∈ spec.rules.map (·.key)) :
    Verbatim text.toList ↔ '"' ∉ text.toList ∧ '\\' ∉ text.toList := by
  obtain ⟨rule, hrule, hkey⟩ := List.mem_map.1 htext
  have hbreak : '\n' ∉ text.toList := by
    intro hmem
    apply Grammar.not_mem_written_of_load h hrule
    rw [hkey, Key.written, String.toList_append, String.toList_append]
    exact List.mem_append_left _ (List.mem_append_right _ hmem)
  constructor
  · intro hverbatim
    exact ⟨fun hmem => (hverbatim _ hmem).2.1 rfl, fun hmem => (hverbatim _ hmem).1 rfl⟩
  · rintro ⟨hquote, hbackslash⟩ c hc
    refine ⟨?_, ?_, ?_⟩ <;> rintro rfl
    · exact hbackslash hc
    · exact hquote hc
    · exact hbreak hc

end

/-- **Where a literal key names its field.** The expression for a literal key denotes the text of
the key if no letter of it has to be escaped, which in the key of a rule only quotes and backslashes
have; such keys name distinct fields. The code inserts the variable of each rule under the expression
for the key that the preview shows at its place, and a template reads under the expression for the key
that the placeholder names. -/
theorem literal_keys {source : String} {spec : Specification}
    (h : Specification.load source = .ok spec) (store : Store) :
    (∀ text, .literal text ∈ keys spec →
      (denoted? (Key.literal text).expression = some text ↔ Verbatim text.toList)) ∧
    (∀ text, .literal text ∈ spec.rules.map (·.key) →
      (Verbatim text.toList ↔ '"' ∉ text.toList ∧ '\\' ∉ text.toList)) ∧
    (∀ text other, Verbatim text.toList → Verbatim other.toList →
      (denoted? (Key.literal text).expression = denoted? (Key.literal other).expression ↔
        text = other)) ∧
    (List.Forall₂ (fun pair block => Inserts pair.1 pair.2 block)
        (((Preview.ofStore spec store).all.map Rendered.key).zip (declared spec)) (blocks spec) ∧
      (blocks spec).flatten <:+: assembleEntry spec) ∧
    ∀ template ∈ templates spec, ∃ pieces,
      List.Forall₂ Reads (Template.scan (Text.trim template)) pieces ∧
        Template.fill Template.expressions (Text.trim template) = String.join pieces := by
  refine ⟨fun text _ => Text.denoted?_literalOf_iff, fun text => verbatim_iff_of_rule h, ?_,
    ⟨forall₂_inserts spec store, blocks_isInfix spec⟩,
    fun template _ => ⟨_, forall₂_reads _, rfl⟩⟩
  intro text other htext hother
  rw [Key.expression, Key.expression, Text.denoted?_literalOf_iff.2 htext,
    Text.denoted?_literalOf_iff.2 hother, Option.some.injEq]

/-! ## Keys with quotes and escapes -/

/-- Two literal keys, one of which the id is read from. -/
def eprintSource : String :=
  "format: xml\nentries: a\nfield[\"eprint\"]: 1\nvalue[\"see also\"]: 2\n" ++
    "entryid: \x7b\x7bfield[\"eprint\"]\x7d\x7d"

def eprint : Specification where
  format := .xml
  entriesPath := ["a"]
  introduction := none
  fieldRules := [⟨.literal "eprint", "1"⟩]
  valueRules := [⟨.literal "see also", "2"⟩]
  typeOverrides := []
  entryId := "\x7b\x7bfield[\"eprint\"]\x7d\x7d"
  entryType := ""
  validation := none
  postMapping := none
  postFields := none

theorem literal_keys_eprint :
    Specification.load eprintSource = .ok eprint ∧
      denoted? (Key.literal "eprint").expression = some "eprint" ∧
      denoted? (Key.literal "see also").expression ≠ some "eprint" := by
  have hload : Specification.load eprintSource = .ok eprint := by decide +kernel
  obtain ⟨hdenoted, hrule, hdistinct, -⟩ := literal_keys hload (.ofList [])
  have heprint : Verbatim "eprint".toList :=
    (hrule "eprint" (by decide)).2 ⟨by decide, by decide⟩
  have hsee : Verbatim "see also".toList :=
    (hrule "see also" (by decide)).2 ⟨by decide +kernel, by decide +kernel⟩
  have hnamed := (hdenoted "eprint" (List.mem_append_left _ (by decide))).2 heprint
  refine ⟨hload, hnamed, fun hsame => ?_⟩
  have heq := (hdistinct "see also" "eprint" hsee heprint).1 (hsame.trans hnamed.symm)
  revert heq
  decide

/-- A key with a quote in it. -/
def quotedSource : String := "format: xml\nentries: a\nfield[\"a\"b\"]: \x7b\x7bc\x7d\x7d"

def quoted : Specification :=
  { eprint with
    fieldRules := [⟨.literal "a\"b", "\x7b\x7bc\x7d\x7d"⟩], valueRules := [], entryId := "" }

/-- A key with the escape for a tab in it, and one with a tab. -/
def tabbedSource : String := "format: xml\nentries: a\nfield[\"a\\tb\"]: 1\nfield[\"a\tb\"]: 2"

def tabbed : Specification :=
  { eprint with
    fieldRules := [⟨.literal "a\\tb", "1"⟩, ⟨.literal "a\tb", "2"⟩], valueRules := []
    entryId := "" }

/-- **A literal key need not name its field**: with a quote in it the code has no literal for it, and
two keys may name one field. -/
theorem literal_keys_not_named :
    (¬ ∀ source spec text, Specification.load source = .ok spec → .literal text ∈ keys spec →
      denoted? (Key.literal text).expression = some text) ∧
    ¬ ∀ source spec text other name, Specification.load source = .ok spec →
      .literal text ∈ keys spec → .literal other ∈ keys spec →
      denoted? (Key.literal text).expression = some name →
      denoted? (Key.literal other).expression = some name → text = other := by
  constructor
  · intro h
    have hkey := h quotedSource quoted "a\"b" (by decide +kernel) (by decide +kernel)
    revert hkey
    decide +kernel
  · intro h
    have hkeys := h tabbedSource tabbed "a\\tb" "a\tb" "a\tb" (by decide +kernel)
      (by decide +kernel) (by decide +kernel) (by decide +kernel) (by decide +kernel)
    revert hkeys
    decide +kernel

end Parser

end Extractor
