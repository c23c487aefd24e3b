import Extractor.Proofs.Specification.Blocks
/-!
# One rule for each key

Lines with one key add to one rule, so the field rules of a specification that was loaded are for
distinct keys, and so are its value rules (`nodup_keys_of_load`). A key may have a rule of each
kind; where none has, all keys are distinct (`nodup_keys_rules`).
-/

namespace Extractor

/-- The rules in the order in which they are applied. -/
def Specification.rules (spec : Specification) : List Rule := spec.fieldRules ++ spec.valueRules

namespace Grammar

theorem map_key_rules (opening : String) (blocks : List Block) :
    (rules opening blocks).map (·.key) = (blocks.filterMap (keyIn? opening ·.key)).eraseDups := by
  rw [rules, List.map_map]
  exact List.map_id' _

/-- A finished draft gives its texts and rules to the specification as they are. -/
theorem finish_ok {d : Draft} {atEnd : Span} {spec : Specification}
    (h : d.finish atEnd = .ok spec) :
    ∃ format path, d.format atEnd = .ok format ∧ d.entriesPath atEnd = .ok path ∧
      spec = {
        format := format
        entriesPath := path
        introduction := d.textUnlessBlank .introduction
        fieldRules := d.rules Slot.field?
        valueRules := d.rules Slot.value?
        typeOverrides := (d.rules Slot.itemType?).map fun rule =>
          (rule.key, ValueClass.parse rule.template)
        entryId := d.text .entryId
        entryType := d.text .entryType
        validation := d.textUnlessBlank .validation
        postMapping := d.textUnlessBlank .postMapping
        postFields := d.textUnlessBlank .postFields } := by
  unfold Draft.finish at h
  cases hformat : d.format atEnd with
  | error fault =>
    rw [hformat] at h
    cases h
  | ok format =>
    cases hpath : d.entriesPath atEnd with
    | error fault =>
      rw [hformat, hpath] at h
      cases h
    | ok path =>
      rw [hformat, hpath] at h
      refine ⟨format, path, rfl, rfl, ?_⟩
      rw [← Except.ok.inj h, ← Draft.map_keyed]

/-- **No key has two field rules or two value rules.** -/
theorem nodup_keys_of_load {source : String} {spec : Specification}
    (h : Specification.load source = .ok spec) :
    (spec.fieldRules.map (·.key)).Nodup ∧ (spec.valueRules.map (·.key)).Nodup := by
  obtain ⟨d, atEnd, hfinish, -, hrules⟩ := draft_of_load h
  obtain ⟨format, path, -, -, rfl⟩ := finish_ok hfinish
  rw [hrules _ _ _ sorts_field, hrules _ _ _ sorts_value, map_key_rules, map_key_rules]
  exact ⟨nodup_eraseDups _, nodup_eraseDups _⟩

theorem nodup_keys_rules {source : String} {spec : Specification}
    (h : Specification.load source = .ok spec)
    (hkinds : ∀ field ∈ spec.fieldRules, ∀ value ∈ spec.valueRules, field.key ≠ value.key) :
    (spec.rules.map (·.key)).Nodup := by
  obtain ⟨hfields, hvalues⟩ := nodup_keys_of_load h
  rw [Specification.rules, List.map_append]
  refine List.nodup_append.2 ⟨hfields, hvalues, ?_⟩
  simpa only [List.forall_mem_map] using hkinds

end Grammar

end Extractor
