import Extractor.Proofs.Text.ByteOrder
import Extractor.Text.Literal
import Mathlib.Data.List.Count
import Mathlib.Data.List.Infix
/-!
# Balanced braces

A text is balanced if as many braces are closed as are opened, and none is closed before it is opened
(`Balanced`). Reading it from the left with the number of open braces decides this (`balanced_iff_opens`),
and shows what the later proofs use: a balanced text can be put anywhere into a balanced text
(`Balanced.insert`), and only the braces of a text count (`balanced_congr`).
-/

namespace Extractor.Text

structure Balanced (text : String) : Prop where
  /-- Every brace that is opened is closed. -/
  closed : text.toList.count '\x7b' = text.toList.count '\x7d'
  /-- No brace is closed that is not open. -/
  opened : ∀ front, front <+: text.toList → front.count '\x7d' ≤ front.count '\x7b'

/-- How many braces are open behind a text, when `n` are open before it. -/
def openAfter (n : Nat) : List Char → Option Nat
  | [] => some n
  | c :: text =>
    if c = '\x7b' then openAfter (n + 1) text
    else if c = '\x7d' then if n = 0 then none else openAfter (n - 1) text
    else openAfter n text

def isBrace (c : Char) : Bool := c = '\x7b' || c = '\x7d'

section

variable {n m k : Nat} {text rest : List Char}

theorem openAfter_eq_some_iff : openAfter n text = some m ↔
    n + text.count '\x7b' = m + text.count '\x7d' ∧
      ∀ front, front <+: text → front.count '\x7d' ≤ n + front.count '\x7b' := by
  induction text generalizing n with
  | nil =>
    have hnil : ∀ front : List Char, front <+: [] → front.count '\x7d' ≤ n + front.count '\x7b' := by
      intro front hfront
      rw [List.prefix_nil.1 hfront]
      exact Nat.zero_le _
    rw [openAfter, Option.some.injEq, List.count_nil, List.count_nil, Nat.add_zero, Nat.add_zero]
    exact (and_iff_left hnil).symm
  | cons c text ih =>
    have hfronts : (∀ front, front <+: c :: text → front.count '\x7d' ≤ n + front.count '\x7b') ↔
        ∀ front, front <+: text →
          (c :: front).count '\x7d' ≤ n + (c :: front).count '\x7b' := by
      constructor
      · exact fun h front hfront => h _ ((List.prefix_cons_inj c).2 hfront)
      · intro h front hfront
        rcases List.prefix_cons_iff.1 hfront with rfl | ⟨front, rfl, hinner⟩
        · exact Nat.zero_le _
        · exact h front hinner
    rw [openAfter, hfronts]
    split
    · next hopen =>
      subst hopen
      rw [ih]
      simp only [List.count_cons_self, List.count_cons_of_ne (by decide : '\x7b' ≠ '\x7d')]
      refine and_congr (by omega) (forall₂_congr fun front _ => by omega)
    · split
      · next hclose =>
        subst hclose
        simp only [List.count_cons_self, List.count_cons_of_ne (by decide : '\x7d' ≠ '\x7b')]
        split
        · next hzero =>
          refine iff_of_false (fun h => nomatch h) fun h => ?_
          have := h.2 [] List.nil_prefix
          simp only [List.count_nil] at this
          omega
        · next hpos =>
          rw [ih]
          refine and_congr (by omega) (forall₂_congr fun front _ => by omega)
      · next hopen hclose =>
        rw [ih, List.count_cons_of_ne hopen, List.count_cons_of_ne hclose]
        refine and_congr_right fun _ => forall₂_congr fun front _ => ?_
        rw [List.count_cons_of_ne hopen, List.count_cons_of_ne hclose]

theorem openAfter_append (n : Nat) (text rest : List Char) :
    openAfter n (text ++ rest) = (openAfter n text).bind (openAfter · rest) := by
  induction text generalizing n with
  | nil => rfl
  | cons c text ih =>
    rw [List.cons_append, openAfter, openAfter, ih, ih, ih]
    split_ifs <;> rfl

/-- Braces that are open before a text stay open behind it. -/
theorem openAfter_add (h : openAfter n text = some m) (k : Nat) :
    openAfter (n + k) text = some (m + k) := by
  rw [openAfter_eq_some_iff] at h ⊢
  refine ⟨by omega, fun front hfront => ?_⟩
  have := h.2 front hfront
  omega

theorem openAfter_filter (n : Nat) (text : List Char) :
    openAfter n (text.filter isBrace) = openAfter n text := by
  induction text generalizing n with
  | nil => rfl
  | cons c text ih =>
    rw [openAfter, ← ih, ← ih, ← ih, List.filter_cons, isBrace]
    split_ifs with hbrace hopen hclose hopen hclose <;> simp_all [openAfter]

end

/-! ## Braces among bytes -/

/-- The brace that a byte of a text is. -/
def braceOf (byte : UInt8) : Option Char :=
  if byte = 123 then some '\x7b' else if byte = 125 then some '\x7d' else none

/-- The braces of a text, from its bytes, which evaluates well. -/
def braces (text : String) : List Char := text.toUTF8.data.toList.filterMap braceOf

/-- No byte of a longer character is a brace. -/
theorem braceOf_of_le {n : Nat} (h : 128 ≤ n) (hn : n < 256) : braceOf (UInt8.ofNat n) = none := by
  have hne (byte : UInt8) (hbyte : byte.toNat < 128) : UInt8.ofNat n ≠ byte := by
    rintro rfl
    rw [UInt8.toNat_ofNat'] at hbyte
    omega
  rw [braceOf, if_neg (hne 123 (by decide)), if_neg (hne 125 (by decide))]

theorem filterMap_braceOf_utf8EncodeChar (c : Char) :
    (String.utf8EncodeChar c).filterMap braceOf = [c].filter isBrace := by
  unfold String.utf8EncodeChar
  dsimp only
  split
  · next hsmall =>
    have hone : ∀ n < 128, [UInt8.ofNat n].filterMap braceOf = [Char.ofNat n].filter isBrace := by
      decide
    have hc := hone c.toNat (Nat.lt_succ_of_le hsmall)
    rwa [Char.ofNat_toNat] at hc
  · next hlarge =>
    have hbrace : ¬ isBrace c = true := by
      intro h
      rcases Bool.or_eq_true_iff.1 h with h | h <;> rw [of_decide_eq_true h] at hlarge <;>
        exact absurd (by decide) hlarge
    rw [List.filter_cons_of_neg hbrace]
    split_ifs <;>
      simp (disch := omega) only [List.filterMap_cons, List.filterMap_nil, List.filter_nil,
        braceOf_of_le]

theorem braces_eq (text : String) : braces text = text.toList.filter isBrace := by
  have hbytes : text.toUTF8.data.toList = text.toList.flatMap String.utf8EncodeChar :=
    bytes_eq text
  rw [braces, hbytes, List.filterMap_flatMap]
  simp only [filterMap_braceOf_utf8EncodeChar, ← List.filter_flatMap, List.flatMap_singleton']

/-! ## Texts -/

/-- Where `n` braces are open before the text, `m` are open behind it, and none of those inside is
closed before it is opened. -/
def Opens (n : Nat) (text : String) (m : Nat) : Prop := openAfter n text.toList = some m

theorem openAfter_braces (n : Nat) (text : String) :
    openAfter n (braces text) = openAfter n text.toList := by
  rw [braces_eq, openAfter_filter]

instance (n : Nat) (text : String) (m : Nat) : Decidable (Opens n text m) :=
  decidable_of_iff (openAfter n (braces text) = some m) (by rw [openAfter_braces, Opens])

theorem balanced_iff_opens {text : String} : Balanced text ↔ Opens 0 text 0 := by
  rw [Opens, openAfter_eq_some_iff]
  simp only [Nat.zero_add]
  exact ⟨fun h => ⟨h.closed, h.opened⟩, fun h => ⟨h.1, h.2⟩⟩

instance (text : String) : Decidable (Balanced text) := decidable_of_iff _ balanced_iff_opens.symm

namespace Opens

variable {n m k : Nat} {text other : String}

theorem append (h : Opens n text m) (hother : Opens m other k) : Opens n (text ++ other) k := by
  rw [Opens, String.toList_append, openAfter_append, h, Option.bind_some]
  exact hother

end Opens

/-- Only the braces of a text count. -/
theorem balanced_congr {text other : String}
    (h : text.toList.filter isBrace = other.toList.filter isBrace) :
    Balanced text ↔ Balanced other := by
  rw [balanced_iff_opens, balanced_iff_opens, Opens, Opens, ← openAfter_filter, h, openAfter_filter]

theorem balanced_of_filter_eq_nil {text : String} (h : text.toList.filter isBrace = []) :
    Balanced text := by
  have hempty : Balanced "" := by decide
  exact (balanced_congr h).2 hempty

namespace Balanced

variable {before text other after : String}

/-- Braces that are open before a balanced text are those that are open behind it. -/
theorem opens (h : Balanced text) (n : Nat) : Opens n text n := by
  have hadd := openAfter_add (balanced_iff_opens.1 h) n
  rwa [Nat.zero_add] at hadd

/-- A balanced text leaves a balanced text balanced, wherever it is put. -/
theorem insert (h : Balanced (before ++ after)) (htext : Balanced text) :
    Balanced (before ++ text ++ after) := by
  rw [balanced_iff_opens, Opens, String.toList_append, openAfter_append,
    Option.bind_eq_some_iff] at h
  obtain ⟨n, hbefore, hafter⟩ := h
  have hbefore : Opens 0 before n := hbefore
  exact balanced_iff_opens.2 ((hbefore.append (htext.opens n)).append hafter)

theorem append (htext : Balanced text) (hother : Balanced other) : Balanced (text ++ other) :=
  balanced_iff_opens.2 ((htext.opens 0).append (hother.opens 0))

theorem join {texts : List String} (h : ∀ text ∈ texts, Balanced text) :
    Balanced (String.join texts) := by
  induction texts with
  | nil => decide
  | cons text texts ih =>
    rw [List.forall_mem_cons] at h
    rw [String.join_cons]
    exact h.1.append (ih h.2)

theorem escape (h : Balanced text) : Balanced (Text.escape text) := by
  have hchar (c : Char) : (escapeChar c).filter isBrace = [c].filter isBrace := by
    unfold escapeChar
    split <;> rfl
  refine (balanced_congr ?_).2 h
  rw [toList_escape, List.filter_flatMap]
  simp only [hchar, ← List.filter_flatMap, List.flatMap_singleton']

theorem literalOf (h : Balanced text) : Balanced (Text.literalOf text) :=
  insert (by decide) h

end Balanced

end Extractor.Text
