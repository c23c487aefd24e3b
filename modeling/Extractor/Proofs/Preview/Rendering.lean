import Extractor.Preview
import Extractor.Proofs.Json.Quoted
import Extractor.Proofs.Specification.Rules
import Extractor.Proofs.Text.Blank
import Mathlib.Data.List.Forall2
/-!
# What the templates of a preview say

A template is cut into segments once, and each segment stands for one text (`Means`): literal text
for itself, a path for the values of the record there, a field for the text that was stored last
under its key. The preview of a record joins these texts (`ofStore_renders`), each rule in sight of
the rules before it, so what a rule says does not depend on the rules behind it
(`take_renderRules`).
-/

namespace Extractor

namespace Preview

/-- What a segment stands for, where some texts were rendered before. -/
inductive Means (store : Store) (earlier : List Rendered) : Segment → String → Prop
  | text (text : String) : Means store earlier (.text text) text
  | join (path : String) :
      Means store earlier (.placeholder (.join path)) ("\n".intercalate (store.get path))
  | list (path : String) :
      Means store earlier (.placeholder (.list path)) (Json.Quoted.writeArray (store.get path))
  | field {key : Key} {before after : List Rendered} {last : Rendered}
      (hearlier : earlier = before ++ last :: after) (hkey : last.key = key)
      (hstored : last.text ≠ "") (hafter : ∀ r ∈ after, r.key = key → r.text = "") :
      Means store earlier (.placeholder (.field key)) last.text
  | absent {key : Key} (hearlier : ∀ r ∈ earlier, r.key = key → r.text = "") :
      Means store earlier (.placeholder (.field key)) ""

/-- The text is what the segments of the template stand for, one behind the other. -/
def Renders (store : Store) (earlier : List Rendered) (template text : String) : Prop :=
  ∃ pieces, List.Forall₂ (Means store earlier) (Template.scan (Text.trim template)) pieces ∧
    text = String.join pieces

/-- All that was rendered, in the order of the rules. -/
def all (p : Preview) : List Rendered := p.fields ++ p.values

section

variable {store : Store} {earlier : List Rendered} {segment : Segment} {text : String} {key : Key}

/-! ## Segments -/

theorem isStored_iff {r : Rendered} : r.isStored = true ↔ r.text ≠ "" := bne_iff_ne

/-- The text is stored, and under the key. -/
def storedUnder (key : Key) (r : Rendered) : Bool := r.isStored && r.key = key

theorem storedUnder_iff {r : Rendered} : storedUnder key r = true ↔ r.key = key ∧ r.text ≠ "" := by
  rw [storedUnder, Bool.and_eq_true, isStored_iff, decide_eq_true_iff, and_comm]

theorem not_storedUnder_iff {r : Rendered} :
    ¬ storedUnder key r = true ↔ (r.key = key → r.text = "") := by
  rw [storedUnder_iff, not_and, not_not]

theorem assigned_eq_empty (h : ∀ r ∈ earlier, r.key = key → r.text = "") :
    assigned earlier key = "" := by
  have hnone : earlier.reverse.find? (storedUnder key) = none := by
    rw [List.find?_eq_none]
    exact fun r hr => not_storedUnder_iff.2 (h r (List.mem_reverse.1 hr))
  exact congrArg (fun found => (Option.map Rendered.text found).getD "") hnone

theorem assigned_eq_last {before after : List Rendered} {last : Rendered} (hkey : last.key = key)
    (hstored : last.text ≠ "") (hafter : ∀ r ∈ after, r.key = key → r.text = "") :
    assigned (before ++ last :: after) key = last.text := by
  have hfind : (before ++ last :: after).reverse.find? (storedUnder key) = some last := by
    rw [List.find?_eq_some_iff_append]
    refine ⟨storedUnder_iff.2 ⟨hkey, hstored⟩, after.reverse, before.reverse, by simp, ?_⟩
    intro r hr
    rw [Bool.not_eq_true', ← Bool.not_eq_true]
    exact not_storedUnder_iff.2 (hafter r (List.mem_reverse.1 hr))
  exact congrArg (fun found => (Option.map Rendered.text found).getD "") hfind

theorem means_assigned (store : Store) (earlier : List Rendered) (key : Key) :
    Means store earlier (.placeholder (.field key)) (assigned earlier key) := by
  cases hfind : earlier.reverse.find? (storedUnder key) with
  | none =>
    rw [List.find?_eq_none] at hfind
    have hearlier : ∀ r ∈ earlier, r.key = key → r.text = "" :=
      fun r hr => not_storedUnder_iff.1 (hfind r (List.mem_reverse.2 hr))
    rw [assigned_eq_empty hearlier]
    exact .absent hearlier
  | some last =>
    obtain ⟨hlast, behind, front, hreverse, hbehind⟩ := List.find?_eq_some_iff_append.1 hfind
    obtain ⟨hkey, hstored⟩ := storedUnder_iff.1 hlast
    have hearlier : earlier = front.reverse ++ last :: behind.reverse := by
      rw [← List.reverse_reverse earlier, hreverse]
      simp
    have hafter : ∀ r ∈ behind.reverse, r.key = key → r.text = "" := by
      intro r hr
      have hnot := hbehind r (List.mem_reverse.1 hr)
      rw [Bool.not_eq_true', ← Bool.not_eq_true] at hnot
      exact not_storedUnder_iff.1 hnot
    rw [hearlier, assigned_eq_last hkey hstored hafter]
    exact .field rfl hkey hstored hafter

/-- Each segment stands for one text, which is put in its place. -/
theorem means_iff : Means store earlier segment text ↔
    text = (resolver store earlier).render segment := by
  constructor
  · rintro (_ | _ | _ | ⟨rfl, hkey, hstored, hafter⟩ | ⟨hearlier⟩)
    · rfl
    · rfl
    · rfl
    · exact (assigned_eq_last hkey hstored hafter).symm
    · exact (assigned_eq_empty hearlier).symm
  · rintro rfl
    cases segment with
    | text text => exact .text text
    | placeholder placeholder =>
      cases placeholder with
      | field key => exact means_assigned store earlier key
      | list path => exact .list path
      | join path => exact .join path

theorem forall₂_means_iff {segments : List Segment} {pieces : List String} :
    List.Forall₂ (Means store earlier) segments pieces ↔
      pieces = segments.map (resolver store earlier).render := by
  constructor
  · intro h
    induction h with
    | nil => rfl
    | cons hsegment _ ih => rw [means_iff.1 hsegment, ih, List.map_cons]
  · rintro rfl
    induction segments with
    | nil => exact .nil
    | cons segment segments ih => exact .cons (means_iff.2 rfl) ih

theorem renders_iff {template : String} :
    Renders store earlier template text ↔ text = render store earlier template := by
  simp only [Renders, forall₂_means_iff, exists_eq_left]
  rfl

/-! ## Rules -/

variable {rules others : List Rule} {i : Nat}

theorem length_renderRules (store : Store) (earlier : List Rendered) (rules : List Rule) :
    (renderRules store earlier rules).length = rules.length := by
  induction rules generalizing earlier with
  | nil => rfl
  | cons rule rules ih => rw [renderRules, List.length_cons, ih, List.length_cons]

/-- Some rules may be rendered first, and the others in sight of these. -/
theorem renderRules_append (store : Store) (earlier : List Rendered) (rules others : List Rule) :
    renderRules store earlier (rules ++ others) =
      renderRules store earlier rules ++
        renderRules store (earlier ++ renderRules store earlier rules) others := by
  induction rules generalizing earlier with
  | nil => rw [List.nil_append, renderRules, List.nil_append, List.append_nil]
  | cons rule rules ih =>
    rw [List.cons_append, renderRules, ih, renderRules, List.cons_append, List.append_assoc,
      List.singleton_append]

/-- **What a rule says does not depend on the rules behind it.** -/
theorem take_renderRules (store : Store) (earlier : List Rendered) (rules : List Rule) (i : Nat) :
    (renderRules store earlier rules).take i = renderRules store earlier (rules.take i) := by
  have hsplit := renderRules_append store earlier (rules.take i) (rules.drop i)
  rw [List.take_append_drop] at hsplit
  rcases Nat.le_total i rules.length with h | h
  · have hlength : (renderRules store earlier (rules.take i)).length = i := by
      rw [length_renderRules, List.length_take_of_le h]
    rw [hsplit, List.take_left' hlength]
  · rw [List.take_of_length_le h, List.take_of_length_le]
    rwa [length_renderRules]

/-- A rule is rendered in sight of what was rendered before it. -/
theorem getElem?_renderRules (store : Store) (earlier : List Rendered) {rule : Rule}
    (h : rules[i]? = some rule) :
    (renderRules store earlier rules)[i]? =
      some ⟨rule.key,
        render store (earlier ++ (renderRules store earlier rules).take i) rule.template⟩ := by
  induction rules generalizing earlier i with
  | nil => cases h
  | cons first rules ih =>
    rw [renderRules]
    cases i with
    | zero =>
      cases h
      rw [List.getElem?_cons_zero, List.take_zero, List.append_nil]
    | succ i =>
      rw [List.getElem?_cons_succ, ih _ h, List.take_succ_cons, List.append_assoc,
        List.singleton_append]

theorem all_ofStore (spec : Specification) (store : Store) :
    (ofStore spec store).all = renderRules store [] spec.rules := by
  rw [Specification.rules, renderRules_append, List.nil_append]
  rfl

theorem renderUnlessBlank_eq_some_iff {template : String} :
    renderUnlessBlank store earlier template = some text ↔
      Text.trim template ≠ "" ∧ Renders store earlier template text := by
  rw [renders_iff, renderUnlessBlank, Ne, Text.trim_eq_empty_iff]
  split
  · next h => simp [h]
  · next h => simp [h, eq_comm]

end

/-- **What a preview says.** The text of a rule is what the segments of its template stand for, in
sight of the rules before it; the id and the type of the entry are rendered in sight of all rules.
A list is a document that holds the values in order. Other rules behind a rule change nothing in
it. -/
theorem ofStore_renders (spec : Specification) (store : Store) :
    let p := ofStore spec store
    (p.fields.length = spec.fieldRules.length ∧ p.values.length = spec.valueRules.length) ∧
      (∀ i rule, spec.rules[i]? = some rule → ∃ r, p.all[i]? = some r ∧ r.key = rule.key ∧
        (∀ text, Renders store (p.all.take i) rule.template text ↔ text = r.text) ∧
        (r.isStored = true ↔ r.text ≠ "")) ∧
      ((∀ text, p.id = some text ↔
          Text.trim spec.entryId ≠ "" ∧ Renders store p.all spec.entryId text) ∧
        ∀ text, p.entryType = some text ↔
          Text.trim spec.entryType ≠ "" ∧ Renders store p.all spec.entryType text) ∧
      (∀ values, Json.Value.read (Json.Quoted.writeArray values) =
        .ok (.array (values.map .string))) ∧
      ∀ (other : Specification) (i : Nat), other.rules.take i = spec.rules.take i →
        (ofStore other store).all.take i = p.all.take i := by
  intro p
  refine ⟨⟨length_renderRules _ _ _, length_renderRules _ _ _⟩, ?_,
    ⟨fun _ => renderUnlessBlank_eq_some_iff, fun _ => renderUnlessBlank_eq_some_iff⟩,
    Json.Value.read_writeArray, ?_⟩
  · intro i rule hrule
    have hrendered := getElem?_renderRules store [] hrule
    rw [← all_ofStore, List.nil_append] at hrendered
    exact ⟨_, hrendered, rfl, fun _ => renders_iff, isStored_iff⟩
  · intro other i hrules
    rw [all_ofStore, all_ofStore, take_renderRules, take_renderRules, hrules]

end Preview

end Extractor
