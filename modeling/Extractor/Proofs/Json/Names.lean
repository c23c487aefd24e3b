import Extractor.Json.Extract
import Mathlib.Data.List.Nodup
import Mathlib.Data.String.Basic
/-!
# What a path leads to

`Leads` follows a path of names and indices into a value. In a value that was read, whatever a
path leads to has its names in ascending order (`read_ascending`); so the names and indices of the
values inside are distinct, and a path leads to one value only (`Leads.unique`).
-/

namespace Extractor.Json

namespace Value

/-- The names of an object. -/
def names : Value → List String
  | .object members => members.map (·.1)
  | _ => []

def Ascending (v : Value) : Prop := v.names.Pairwise (· < ·)

/-- The names and indices of a path lead from a value to one inside it. -/
inductive Leads : Value → List String → Value → Prop
  | here (v : Value) : Leads v [] v
  | into {v child w : Value} {name : String} {path : List String} :
      (name, child) ∈ v.children → Leads child path w → Leads v (name :: path) w

/-- `P` holds of a value and of all values inside it. -/
def Everywhere (P : Value → Prop) (v : Value) : Prop := ∀ path w, v.Leads path w → P w

/-- `P` holds of the values that a path passes before it gets to its end. -/
def Along (P : Value → Prop) : List String → Value → Prop
  | [], _ => True
  | segment :: path, v => P v ∧ ∀ child, v.child? segment = some child → child.Along P path

section

variable {P : Value → Prop} {v w : Value}

theorem everywhere_iff :
    v.Everywhere P ↔ P v ∧ ∀ name child, (name, child) ∈ v.children → child.Everywhere P := by
  constructor
  · exact fun h => ⟨h [] v (.here v), fun _ _ hc path w hw => h _ w (.into hc hw)⟩
  · rintro ⟨hv, hc⟩ path w (_ | ⟨hmem, hw⟩)
    · exact hv
    · exact hc _ _ hmem _ w hw

theorem Everywhere.here (h : v.Everywhere P) : P v := (everywhere_iff.1 h).1

theorem Everywhere.child (h : v.Everywhere P) {name : String} {child : Value}
    (hc : (name, child) ∈ v.children) : child.Everywhere P := (everywhere_iff.1 h).2 name child hc

/-- A value without anything inside. -/
theorem everywhere_of_children_eq_nil (hv : P v) (h : v.children = []) : v.Everywhere P := by
  refine everywhere_iff.2 ⟨hv, fun name child hc => ?_⟩
  rw [h] at hc
  exact absurd hc List.not_mem_nil

theorem mem_indexed {index : Nat} {items : List Value} {name : String} {child : Value} :
    (name, child) ∈ indexed index items ↔
      ∃ i, items[i]? = some child ∧ name = toString (index + i) := by
  induction items generalizing index with
  | nil => simp [indexed]
  | cons item rest ih =>
    rw [indexed, List.mem_cons, ih, Prod.mk.injEq]
    constructor
    · rintro (⟨rfl, rfl⟩ | ⟨i, hi, rfl⟩)
      · exact ⟨0, rfl, rfl⟩
      · exact ⟨i + 1, hi, by rw [Nat.add_assoc, Nat.add_comm 1]⟩
    · rintro ⟨i, hi, rfl⟩
      cases i with
      | zero => exact Or.inl ⟨rfl, (Option.some.inj hi).symm⟩
      | succ i => exact Or.inr ⟨i, hi, by rw [Nat.add_assoc, Nat.add_comm 1]⟩

theorem everywhere_array {items : List Value} (hv : P (.array items))
    (h : ∀ item ∈ items, item.Everywhere P) : (Value.array items).Everywhere P := by
  refine everywhere_iff.2 ⟨hv, fun name child hc => ?_⟩
  obtain ⟨i, hi, -⟩ := mem_indexed.1 hc
  exact h child (List.mem_of_getElem? hi)

end

/-! ## Reading keeps the names in order -/

section Insert

variable {name : String} {value : Value} {members : List (String × Value)}

theorem mem_insertMember {entry : String × Value} (h : entry ∈ insertMember name value members) :
    entry = (name, value) ∨ entry ∈ members := by
  induction members with
  | nil => exact Or.inl (List.mem_singleton.1 h)
  | cons first rest ih =>
    simp only [insertMember] at h
    split at h
    · exact List.mem_cons.1 h
    · split at h
      · exact (List.mem_cons.1 h).imp_right (List.mem_cons_of_mem _)
      · rcases List.mem_cons.1 h with rfl | h
        · exact Or.inr List.mem_cons_self
        · exact (ih h).imp_right (List.mem_cons_of_mem _)

theorem pairwise_insertMember (h : (members.map (·.1)).Pairwise (· < ·)) :
    ((insertMember name value members).map (·.1)).Pairwise (· < ·) := by
  rw [List.pairwise_map] at h ⊢
  induction members with
  | nil => exact List.pairwise_singleton _ _
  | cons first rest ih =>
    obtain ⟨hfirst, hrest⟩ := List.pairwise_cons.1 h
    simp only [insertMember]
    split
    · next hlt =>
      refine List.pairwise_cons.2 ⟨fun entry he => ?_, h⟩
      rcases List.mem_cons.1 he with rfl | he
      · exact hlt
      · exact lt_trans hlt (hfirst entry he)
    · split
      · next heq =>
        exact List.pairwise_cons.2 ⟨fun entry he => heq ▸ hfirst entry he, hrest⟩
      · next hlt hne =>
        refine List.pairwise_cons.2 ⟨fun entry he => ?_, ih hrest⟩
        rcases mem_insertMember he with rfl | he
        · exact lt_of_le_of_ne (not_lt.1 hlt) (Ne.symm hne)
        · exact hfirst entry he

end Insert

theorem bind_eq_ok {ε α β : Type} {x : Except ε α} {f : α → Except ε β} {b : β}
    (h : x.bind f = .ok b) : ∃ a, x = .ok a ∧ f a = .ok b := by
  cases x with
  | error _ => cases h
  | ok a => exact ⟨a, rfl, h⟩

/-- Members that an object may have. -/
structure Sound (members : List (String × Value)) : Prop where
  ascending : (members.map (·.1)).Pairwise (· < ·)
  inside : ∀ name child, (name, child) ∈ members → child.Everywhere Ascending

theorem Sound.nil : Sound [] := ⟨List.Pairwise.nil, fun _ _ h => absurd h List.not_mem_nil⟩

theorem Sound.insertMember {members : List (String × Value)} (h : Sound members) {name : String}
    {value : Value} (hvalue : value.Everywhere Ascending) :
    Sound (insertMember name value members) := by
  refine ⟨pairwise_insertMember h.ascending, fun other child hc => ?_⟩
  rcases mem_insertMember hc with heq | hc
  · cases heq
    exact hvalue
  · exact h.inside other child hc

theorem Sound.object {members : List (String × Value)} (h : Sound members) :
    (Value.object members).Everywhere Ascending :=
  everywhere_iff.2 ⟨h.ascending, h.inside⟩

theorem ascending_leaf {v : Value} (h : v.children = []) (hnames : v.names = []) :
    v.Everywhere Ascending :=
  everywhere_of_children_eq_nil (by rw [Ascending, hnames]; exact List.Pairwise.nil) h

/-- A step whose value has nothing inside, whatever was read for it. -/
theorem ascending_of_bind {α : Type} {text : List Char} {x : Result α} {f : α → Step text Value}
    {step : Step text Value} (h : (x.bind fun a => .ok (f a)) = .ok step)
    (hf : ∀ a, (f a).value.children = [] ∧ (f a).value.names = []) :
    step.value.Everywhere Ascending := by
  obtain ⟨a, -, h⟩ := bind_eq_ok h
  cases h
  exact ascending_leaf (hf a).1 (hf a).2

mutual

theorem readValue_ascending {allowance : Nat} {text : List Char} {step : Step text Value}
    (h : readValue allowance text = .ok step) : step.value.Everywhere Ascending := by
  rw [readValue] at h
  split at h
  · cases h
  next c r hskip =>
  have hr : r.length < text.length := length_lt_of_skipBlank hskip
  dsimp only at h
  split_ifs at h
  · exact ascending_of_bind h fun _ => ⟨rfl, rfl⟩
  · exact ascending_of_bind h fun _ => ⟨rfl, rfl⟩
  · exact ascending_of_bind h fun _ => ⟨rfl, rfl⟩
  · exact ascending_of_bind h fun _ => ⟨rfl, rfl⟩
  · exact ascending_of_bind h fun _ => ⟨rfl, rfl⟩
  · split at h
    · cases h
    · obtain ⟨items, hitems, h⟩ := bind_eq_ok h
      cases h
      exact everywhere_array List.Pairwise.nil (readArray_ascending hitems)
  · split at h
    · cases h
    · obtain ⟨members, hmembers, h⟩ := bind_eq_ok h
      cases h
      exact (readObject_sound hmembers).object
  · cases h
termination_by 3 * text.length
decreasing_by all_goals omega

theorem readArray_ascending {allowance : Nat} {text : List Char} {step : Step text (List Value)}
    (h : readArray allowance text = .ok step) :
    ∀ item ∈ step.value, item.Everywhere Ascending := by
  rw [readArray] at h
  split at h
  · cases h
  · cases h
    exact fun _ hitem => absurd hitem List.not_mem_nil
  · exact readItems_ascending h
termination_by 3 * text.length + 2
decreasing_by omega

theorem readItems_ascending {allowance : Nat} {text : List Char} {step : Step text (List Value)}
    (h : readItems allowance text = .ok step) :
    ∀ item ∈ step.value, item.Everywhere Ascending := by
  rw [readItems] at h
  obtain ⟨first, hfirst, h⟩ := bind_eq_ok h
  have hshorter := first.shorter
  dsimp only at h
  split at h
  · cases h
  next c r hskip =>
  have hr : r.length < first.rest.length := length_lt_of_skipBlank hskip
  have hascending : first.value.Everywhere Ascending := readValue_ascending hfirst
  split_ifs at h
  · cases h
    intro item hitem
    rw [List.mem_singleton.1 hitem]
    exact hascending
  · split at h
    · cases h
    · cases h
    · obtain ⟨rest, hrest, h⟩ := bind_eq_ok h
      cases h
      intro item hitem
      rcases List.mem_cons.1 hitem with rfl | hitem
      · exact hascending
      · exact readItems_ascending hrest item hitem
  · cases h
termination_by 3 * text.length + 1
decreasing_by all_goals omega

theorem readObject_sound {allowance : Nat} {text : List Char}
    {step : Step text (List (String × Value))} (h : readObject allowance text = .ok step) :
    Sound step.value := by
  rw [readObject] at h
  split at h
  · cases h
  next c r hskip =>
  have hr : r.length < text.length := length_lt_of_skipBlank hskip
  dsimp only at h
  split_ifs at h
  · cases h
    exact Sound.nil
  · obtain ⟨members, hmembers, h⟩ := bind_eq_ok h
    cases h
    have hsound : Sound members.value := readMembers_sound Sound.nil hmembers
    exact hsound
  · cases h
termination_by 3 * text.length + 2
decreasing_by omega

theorem readMembers_sound {allowance : Nat} {members : List (String × Value)} {text : List Char}
    {step : Step text (List (String × Value))} (hmembers : Sound members)
    (h : readMembers allowance members text = .ok step) : Sound step.value := by
  rw [readMembers] at h
  obtain ⟨name, -, h⟩ := bind_eq_ok h
  have hname := name.shorter
  dsimp only at h
  split at h
  · cases h
  next r hskip =>
    have hr : r.length < name.rest.length := length_lt_of_skipBlank hskip
    obtain ⟨value, hvalue, h⟩ := bind_eq_ok h
    have hshorter := value.shorter
    have hsound : Sound (Value.insertMember name.value value.value members) :=
      hmembers.insertMember (readValue_ascending hvalue)
    split at h
    · cases h
    next c r' hskip' =>
    have hr' : r'.length < value.rest.length := length_lt_of_skipBlank hskip'
    split_ifs at h
    · cases h
      exact hsound
    · split at h
      · cases h
      next d r'' hskip'' =>
      have hr'' : r''.length < r'.length := length_lt_of_skipBlank hskip''
      split_ifs at h
      · cases h
      · obtain ⟨rest, hrest, h⟩ := bind_eq_ok h
        cases h
        have hrest : Sound rest.value := readMembers_sound hsound hrest
        exact hrest
      · cases h
    · cases h
  · cases h
termination_by 3 * text.length + 1
decreasing_by all_goals omega

end

/-- **Every object of a document that is read has its names in ascending order.** -/
theorem read_ascending {document : String} {root : Value} (h : Value.read document = .ok root) :
    root.Everywhere Ascending := by
  rw [Value.read] at h
  split at h
  · next value hread =>
    cases h
    obtain ⟨step, hstep, hread⟩ := bind_eq_ok hread
    split at hread
    · cases hread
      exact readValue_ascending hstep
    · cases hread
  · cases h

/-! ## One value at the end of a path -/

theorem map_fst_indexed (index : Nat) (items : List Value) :
    (indexed index items).map (·.1) = (List.range' index items.length).map toString := by
  induction items generalizing index with
  | nil => rfl
  | cons item rest ih => rw [indexed, List.map_cons, ih, List.length_cons, List.range'_succ]; rfl

theorem toString_injective : Function.Injective (toString : Nat → String) := by
  intro m n h
  rw [Nat.toString_eq_repr, Nat.toString_eq_repr, ← String.toList_inj, Nat.toList_repr,
    Nat.toList_repr] at h
  rw [← Nat.ofDigitChars_ten_toDigits (n := m), h, Nat.ofDigitChars_ten_toDigits]

theorem nodup_indexed (index : Nat) (items : List Value) :
    ((indexed index items).map (·.1)).Nodup := by
  rw [map_fst_indexed]
  exact (List.nodup_range' 1).map toString_injective

theorem Ascending.nodup_children {v : Value} (h : v.Ascending) : (v.children.map (·.1)).Nodup := by
  cases v with
  | array items => exact nodup_indexed 0 items
  | object members => exact h.imp ne_of_lt
  | _ => exact List.nodup_nil

theorem Ascending.child_unique {v a b : Value} {name : String} (h : v.Ascending)
    (ha : (name, a) ∈ v.children) (hb : (name, b) ∈ v.children) : a = b :=
  congrArg Prod.snd (List.inj_on_of_nodup_map h.nodup_children ha hb rfl)

theorem Leads.append {v w u : Value} {path rest : List String} (hw : v.Leads path w)
    (hu : w.Leads rest u) : v.Leads (path ++ rest) u := by
  induction hw with
  | here => exact hu
  | into hc _ ih => exact .into hc (ih hu)

theorem Leads.unique {v a b : Value} {path : List String} (h : v.Everywhere Ascending)
    (ha : v.Leads path a) (hb : v.Leads path b) : a = b := by
  induction ha with
  | here =>
    cases hb
    rfl
  | into hc _ ih =>
    obtain _ | ⟨hc', hb⟩ := hb
    cases h.here.child_unique hc hc'
    exact ih (h.child hc) hb

end Value

end Extractor.Json
