import Extractor.Proofs.Preview.Rendering
import Mathlib.Data.List.Nodup
/-!
# Looking up a key in a preview

A template is given the text that was stored last under a key, a look-up in the finished preview
the first one. A specification that was loaded has at most one field rule and one value rule for a
key, so the two agree unless both rules store a text (`get?_ofStore`); where both do, the look-up
gives the field, which the value was to replace (`get?_ofStore_not_last`).
-/

namespace Extractor

namespace Preview

theorem find?_of_unique {α : Type} {p : α → Bool} {items : List α} {a : α} (ha : a ∈ items)
    (hp : p a = true) (hunique : ∀ b ∈ items, p b = true → b = a) : items.find? p = some a := by
  cases hfind : items.find? p with
  | none => exact absurd hp (List.find?_eq_none.1 hfind a ha)
  | some b => rw [hunique b (List.mem_of_find?_eq_some hfind) (List.find?_some hfind)]

section

variable {store : Store} {texts : List Rendered} {r : Rendered} {key : Key}

/-! ## One stored text -/

theorem assigned_eq (texts : List Rendered) (key : Key) :
    assigned texts key = ((texts.reverse.find? (storedUnder key)).map Rendered.text).getD "" := rfl

theorem get?_eq (p : Preview) (key : Key) :
    p.get? key = (p.all.find? (storedUnder key)).map Rendered.text := rfl

/-- Where one text is stored under a key, the first one is the last one. -/
theorem assigned_of_unique (hr : r ∈ texts) (hstored : storedUnder key r = true)
    (hunique : ∀ s ∈ texts, storedUnder key s = true → s = r) : assigned texts key = r.text := by
  rw [assigned_eq, find?_of_unique (List.mem_reverse.2 hr) hstored fun s hs =>
    hunique s (List.mem_reverse.1 hs)]
  rfl

theorem get?_eq_none_iff (p : Preview) (key : Key) :
    p.get? key = none ↔ assigned p.all key = "" := by
  rw [get?_eq, Option.map_eq_none_iff, assigned_eq]
  cases hfind : p.all.reverse.find? (storedUnder key) with
  | none =>
    rw [List.find?_eq_none] at hfind
    refine iff_of_true (List.find?_eq_none.2 fun r hr => hfind r (List.mem_reverse.2 hr)) rfl
  | some last =>
    have hlast := List.find?_some hfind
    have hmem := List.mem_reverse.1 (List.mem_of_find?_eq_some hfind)
    refine iff_of_false (fun hnone => List.find?_eq_none.1 hnone last hmem hlast) ?_
    exact (storedUnder_iff.1 hlast).2

theorem map_key_renderRules (store : Store) (earlier : List Rendered) (rules : List Rule) :
    (renderRules store earlier rules).map Rendered.key = rules.map Rule.key := by
  induction rules generalizing earlier with
  | nil => rfl
  | cons rule rules ih => rw [renderRules, List.map_cons, ih, List.map_cons]

/-- Rules for distinct keys store one text for a key. -/
theorem eq_of_storedUnder (hkeys : (texts.map Rendered.key).Nodup) (hr : r ∈ texts)
    (hstored : storedUnder key r = true) : ∀ s ∈ texts, storedUnder key s = true → s = r := by
  intro s hs hs'
  refine List.inj_on_of_nodup_map hkeys hs hr ?_
  rw [(storedUnder_iff.1 hs').1, (storedUnder_iff.1 hstored).1]

end

/-! ## Fields and values -/

section

variable {p : Preview} {key : Key} {field value r : Rendered}

/-- A field wins in the look-up, and a value in the templates. -/
theorem get?_of_both (hfields : (p.fields.map Rendered.key).Nodup)
    (hvalues : (p.values.map Rendered.key).Nodup) (hfield : field ∈ p.fields)
    (hvalue : value ∈ p.values) (hstored : storedUnder key field = true)
    (hstored' : storedUnder key value = true) :
    p.get? key = some field.text ∧ assigned p.all key = value.text := by
  have hfirst : p.fields.find? (storedUnder key) = some field :=
    find?_of_unique hfield hstored (eq_of_storedUnder hfields hfield hstored)
  have hlast : p.values.reverse.find? (storedUnder key) = some value :=
    find?_of_unique (List.mem_reverse.2 hvalue) hstored' fun s hs =>
      eq_of_storedUnder hvalues hvalue hstored' s (List.mem_reverse.1 hs)
  constructor
  · rw [get?_eq, all, List.find?_append, hfirst]
    rfl
  · rw [assigned_eq, all, List.reverse_append, List.find?_append, hlast]
    rfl

theorem get?_of_one (hfields : (p.fields.map Rendered.key).Nodup)
    (hvalues : (p.values.map Rendered.key).Nodup) (hr : r ∈ p.all)
    (hstored : storedUnder key r = true)
    (hone : ∀ field ∈ p.fields, ∀ value ∈ p.values,
      storedUnder key field = true → ¬ storedUnder key value = true) :
    p.get? key = some r.text ∧ assigned p.all key = r.text := by
  have hunique : ∀ s ∈ p.all, storedUnder key s = true → s = r := by
    intro s hs hs'
    rcases List.mem_append.1 hr with hr | hr <;> rcases List.mem_append.1 hs with hs | hs
    · exact eq_of_storedUnder hfields hr hstored s hs hs'
    · exact absurd hs' (hone r hr s hs hstored)
    · exact absurd hstored (hone s hs r hr hs')
    · exact eq_of_storedUnder hvalues hr hstored s hs hs'
  constructor
  · rw [get?_eq, find?_of_unique hr hstored hunique]
    rfl
  · exact assigned_of_unique hr hstored hunique

end

/-- **What a look-up in a preview finds.** It finds nothing exactly if the key stands for the empty
text in the id of the entry. Otherwise it finds the text that the key stands for there, unless a
field and a value are both stored under the key: then it finds the field, and the key stands for
the value. -/
theorem get?_ofStore {source : String} {spec : Specification}
    (h : Specification.load source = .ok spec) (store : Store) (key : Key) :
    let p := ofStore spec store
    let there := Means store p.all (.placeholder (.field key))
    (p.get? key = none ↔ there "") ∧
      ((∀ field ∈ p.fields, ∀ value ∈ p.values,
          storedUnder key field = true → ¬ storedUnder key value = true) →
        ∀ text, p.get? key = some text ↔ text ≠ "" ∧ there text) ∧
      ∀ field ∈ p.fields, ∀ value ∈ p.values, storedUnder key field = true →
        storedUnder key value = true → p.get? key = some field.text ∧ there value.text := by
  intro p there
  obtain ⟨hfields, hvalues⟩ := Grammar.nodup_keys_of_load h
  rw [← map_key_renderRules store []] at hfields
  rw [← map_key_renderRules store p.fields] at hvalues
  have hthere : ∀ text, there text ↔ text = assigned p.all key := fun _ => means_iff
  simp only [hthere]
  refine ⟨(get?_eq_none_iff p key).trans eq_comm, fun hone text => ?_, ?_⟩
  · by_cases hstored : ∃ r ∈ p.all, storedUnder key r = true
    · obtain ⟨r, hr, hstored⟩ := hstored
      obtain ⟨hget, hassigned⟩ := get?_of_one hfields hvalues hr hstored hone
      have hne := (storedUnder_iff.1 hstored).2
      rw [hget, hassigned, Option.some.injEq]
      constructor
      · rintro rfl
        exact ⟨hne, rfl⟩
      · exact fun htext => htext.2.symm
    · have hnone : p.get? key = none := by
        rw [get?_eq, List.find?_eq_none.2 fun r hr hr' => hstored ⟨r, hr, hr'⟩]
        rfl
      rw [hnone, (get?_eq_none_iff p key).1 hnone]
      refine iff_of_false (fun h => Option.some_ne_none _ h.symm) fun htext => htext.1 htext.2
  · intro field hfield value hvalue hstored hstored'
    obtain ⟨hget, hassigned⟩ := get?_of_both hfields hvalues hfield hvalue hstored hstored'
    exact ⟨hget, hassigned.symm⟩

/-! ## A field and a value under one key -/

def sharedSource : String :=
  "format: xml\nentries: a\nfield[x]: \x7b\x7ba\x7d\x7d\nvalue[x]: \x7b\x7bb\x7d\x7d\n" ++
    "entryid: \x7b\x7bfield[x]\x7d\x7d"

def shared : Specification where
  format := .xml
  entriesPath := ["a"]
  introduction := none
  fieldRules := [⟨.symbol "x", "\x7b\x7ba\x7d\x7d"⟩]
  valueRules := [⟨.symbol "x", "\x7b\x7bb\x7d\x7d"⟩]
  typeOverrides := []
  entryId := "\x7b\x7bfield[x]\x7d\x7d"
  entryType := ""
  validation := none
  postMapping := none
  postFields := none

def twoTexts : Store := .ofList [("a", "first"), ("b", "second")]

theorem load_sharedSource : Specification.load sharedSource = .ok shared := by decide +kernel

theorem ofStore_shared : ofStore shared twoTexts =
    ⟨[⟨.symbol "x", "first"⟩], [⟨.symbol "x", "second"⟩], some "second", none⟩ := by
  decide +kernel

/-- The field is found, and the value stands in the id. -/
theorem get?_ofStore_shared :
    (ofStore shared twoTexts).get? (.symbol "x") = some "first" ∧
      Means twoTexts (ofStore shared twoTexts).all (.placeholder (.field (.symbol "x"))) "second" := by
  have hboth := (get?_ofStore load_sharedSource twoTexts (.symbol "x")).2.2
  rw [ofStore_shared] at hboth ⊢
  exact hboth ⟨.symbol "x", "first"⟩ List.mem_cons_self ⟨.symbol "x", "second"⟩ List.mem_cons_self
    (by decide) (by decide)

/-- **A look-up does not always find the text that was stored last.** -/
theorem get?_ofStore_not_last :
    ¬ ∀ source spec store key text, Specification.load source = .ok spec →
      (ofStore spec store).get? key = some text →
        Means store (ofStore spec store).all (.placeholder (.field key)) text := by
  intro h
  have hfirst := h sharedSource shared twoTexts (.symbol "x") "first" load_sharedSource
  rw [means_iff, ofStore_shared] at hfirst
  revert hfirst
  decide

end Preview

end Extractor
