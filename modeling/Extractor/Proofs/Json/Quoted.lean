import Extractor.Json.Reader
import Mathlib.Data.List.Basic
/-!
# Texts read back

A text that is written between quotes is read back as it was (`yields_readChars_escape`), and so an
array of texts is a document that holds these texts in order (`read_writeArray`).
-/

namespace Extractor.Json

/-- A reader took this value off the text and left the rest. -/
def Yields {text : List Char} {α : Type} (result : Result (Step text α)) (value : α)
    (rest : List Char) : Prop :=
  ∃ shorter, result = .ok ⟨value, rest, shorter⟩

namespace Quoted

section

variable {c : Char} {text rest chars : List Char}

theorem hexNumber?_hexChar : ∀ n < 32, hexNumber? '0' '0' (hexChar (n / 16)) (hexChar (n % 16)) =
    some n := by
  decide

/-- A character is escaped by a letter or by its number, or stands for itself. -/
theorem escapeChar_cases (c : Char) :
    (∃ l, escapeChar c = ['\\', l] ∧ l ≠ 'u' ∧ ofLetter? l = some c) ∨
      (c.toNat < 0x20 ∧ escapeChar c =
        ['\\', 'u', '0', '0', hexChar (c.toNat / 16), hexChar (c.toNat % 16)]) ∨
      (escapeChar c = [c] ∧ c ≠ '"' ∧ c ≠ '\\' ∧ ¬ c.toNat < 0x20) := by
  unfold escapeChar
  split_ifs with hquote hbackslash hb hf hn hr ht hcontrol
  · exact .inl ⟨_, rfl, by decide, by rw [hquote]; rfl⟩
  · exact .inl ⟨_, rfl, by decide, by rw [hbackslash]; rfl⟩
  · exact .inl ⟨_, rfl, by decide, by rw [hb]; rfl⟩
  · exact .inl ⟨_, rfl, by decide, by rw [hf]; rfl⟩
  · exact .inl ⟨_, rfl, by decide, by rw [hn]; rfl⟩
  · exact .inl ⟨_, rfl, by decide, by rw [hr]; rfl⟩
  · exact .inl ⟨_, rfl, by decide, by rw [ht]; rfl⟩
  · exact .inr (.inl ⟨hcontrol, rfl⟩)
  · exact .inr (.inr ⟨rfl, hquote, hbackslash, hcontrol⟩)

theorem four_le_byteSize (a b c d : Char) (rest : List Char) :
    4 ≤ byteSize (a :: b :: c :: d :: rest) := by
  have ha := a.utf8Size_pos
  have hb := b.utf8Size_pos
  have hc := c.utf8Size_pos
  have hd := d.utf8Size_pos
  simp only [byteSize]
  omega

theorem yields_readHex {a b c d : Char} {n : Nat} (h : hexNumber? a b c d = some n)
    (rest : List Char) : Yields (readHex (a :: b :: c :: d :: rest)) n rest := by
  unfold readHex
  rw [if_neg (Nat.not_lt.2 (four_le_byteSize a b c d rest))]
  simp only [h]
  exact ⟨_, rfl⟩

/-- The number of a control character is no half of a pair. -/
theorem yields_readEscape_control (h : c.toNat < 0x20) (rest : List Char) :
    Yields (readEscape ('u' :: '0' :: '0' :: hexChar (c.toNat / 16) :: hexChar (c.toNat % 16) :: rest))
      c rest := by
  obtain ⟨hshorter, hhex⟩ := yields_readHex (hexNumber?_hexChar _ h) rest
  have hlow : isLowSurrogate c.toNat = false := by
    simp only [isLowSurrogate, Bool.and_eq_false_iff, decide_eq_false_iff_not]
    omega
  have hhigh : isHighSurrogate c.toNat = false := by
    simp only [isHighSurrogate, Bool.and_eq_false_iff, decide_eq_false_iff_not]
    omega
  have hunicode : Yields (readUnicode
      ('0' :: '0' :: hexChar (c.toNat / 16) :: hexChar (c.toNat % 16) :: rest)) c rest := by
    refine ⟨hshorter, ?_⟩
    unfold readUnicode
    rw [hhex]
    simp only [bind, Except.bind, hlow, hhigh, Bool.false_eq_true, if_false]
    simp only [Step.map, Char.ofNat_toNat]
    rfl
  obtain ⟨hshorter, hunicode⟩ := hunicode
  unfold readEscape
  simp only [if_true, hunicode]
  exact ⟨_, rfl⟩

theorem yields_readEscape_letter {l : Char} (hl : l ≠ 'u') (h : ofLetter? l = some c)
    (rest : List Char) : Yields (readEscape (l :: rest)) c rest := by
  unfold readEscape
  simp only [if_neg hl, h]
  exact ⟨_, rfl⟩

theorem yields_readChars_backslash {text left : List Char} (hescape : Yields (readEscape text) c left)
    (h : Yields (readChars left) chars rest) : Yields (readChars ('\\' :: text)) (c :: chars) rest := by
  obtain ⟨hshorter, hescape⟩ := hescape
  obtain ⟨hshorter', h⟩ := h
  rw [readChars, if_neg (by decide), if_pos rfl, hescape]
  simp only [bind, Except.bind, h]
  exact ⟨_, rfl⟩

/-- Reading takes one character for each that was written. -/
theorem yields_readChars_cons (h : Yields (readChars text) chars rest) (c : Char) :
    Yields (readChars (escapeChar c ++ text)) (c :: chars) rest := by
  rcases escapeChar_cases c with ⟨l, hc, hl, hletter⟩ | ⟨hcontrol, hc⟩ | ⟨hc, hquote, hbackslash, hplain⟩
  · rw [hc]
    exact yields_readChars_backslash (yields_readEscape_letter hl hletter text) h
  · rw [hc]
    exact yields_readChars_backslash (yields_readEscape_control hcontrol text) h
  · obtain ⟨hshorter, h⟩ := h
    rw [hc, List.singleton_append, readChars, if_neg hquote, if_neg hbackslash, if_neg hplain, h]
    exact ⟨_, rfl⟩

/-- **A text between quotes is read back.** -/
theorem yields_readChars_escape (text rest : List Char) :
    Yields (readChars (text.flatMap escapeChar ++ '"' :: rest)) text rest := by
  induction text with
  | nil =>
    rw [List.flatMap_nil, List.nil_append, readChars, if_pos rfl]
    exact ⟨_, rfl⟩
  | cons c text ih =>
    rw [List.flatMap_cons, List.append_assoc]
    exact yields_readChars_cons ih c

end

/-- The characters of a text between quotes, with what follows it. -/
theorem toList_write_append (text : String) (rest : List Char) :
    (write text).toList ++ rest = '"' :: (text.toList.flatMap escapeChar ++ '"' :: rest) := by
  simp [write]

theorem yields_read (text : String) (rest : List Char) :
    Yields (read (text.toList.flatMap escapeChar ++ '"' :: rest)) text rest := by
  obtain ⟨hshorter, h⟩ := yields_readChars_escape text.toList rest
  refine ⟨hshorter, ?_⟩
  unfold read
  rw [h]
  simp only [bind, Except.bind, Step.map, String.ofList_toList]
  rfl

end Quoted

namespace Value

open Quoted

theorem skipBlank_cons {c : Char} (h : isBlank c = false) (rest : List Char) :
    skipBlank (c :: rest) = c :: rest := by
  rw [skipBlank, List.dropWhile_cons_of_neg (by rw [h]; decide)]

theorem skipBlank_write (text : String) (rest : List Char) :
    skipBlank ((write text).toList ++ rest) =
      '"' :: (text.toList.flatMap escapeChar ++ '"' :: rest) := by
  rw [toList_write_append, skipBlank_cons (by decide)]

theorem yields_readValue_string (allowance : Nat) (text : String) (rest : List Char) :
    Yields (readValue allowance ((write text).toList ++ rest)) (.string text) rest := by
  obtain ⟨hshorter, h⟩ := yields_read text rest
  have hskip := skipBlank_write text rest
  rw [readValue]
  split
  · next hnil => exact absurd (hskip.symm.trans hnil) (List.cons_ne_nil _ _)
  next c r hcons =>
  obtain ⟨rfl, rfl⟩ := List.cons.inj (hskip.symm.trans hcons)
  simp only [if_neg (show ('"' : Char) ≠ 'n' by decide), if_neg (show ('"' : Char) ≠ 't' by decide),
    if_neg (show ('"' : Char) ≠ 'f' by decide), if_pos, h]
  exact ⟨_, rfl⟩

/-- What follows the first text of an array. -/
def writeRest : List String → List Char
  | [] => [']']
  | text :: texts => ',' :: (write text).toList ++ writeRest texts

theorem toList_writeArray_cons (text : String) (texts : List String) :
    (writeArray (text :: texts)).toList = '[' :: ((write text).toList ++ writeRest texts) := by
  have hjoin : (",".intercalate ((text :: texts).map write)).toList ++ [']'] =
      (write text).toList ++ writeRest texts := by
    induction texts generalizing text with
    | nil => simp [writeRest]
    | cons next texts ih =>
      have ih := ih next
      rw [List.map_cons] at ih
      rw [List.map_cons, List.map_cons, String.intercalate_cons_cons, writeRest, List.cons_append,
        ← ih]
      simp
  rw [← hjoin, writeArray]
  simp

theorem yields_readItems (allowance : Nat) (text : String) (texts : List String)
    (rest : List Char) :
    Yields (readItems allowance ((write text).toList ++ (writeRest texts ++ rest)))
      ((text :: texts).map .string) rest := by
  induction texts generalizing text with
  | nil =>
    obtain ⟨hshorter, h⟩ := yields_readValue_string allowance text (writeRest [] ++ rest)
    have hskip : skipBlank (writeRest [] ++ rest) = ']' :: rest := skipBlank_cons (by decide) rest
    rw [readItems, h]
    simp only [bind, Except.bind]
    split
    · next hnil => exact absurd (hskip.symm.trans hnil) (List.cons_ne_nil _ _)
    next c r hcons =>
    obtain ⟨rfl, rfl⟩ := List.cons.inj (hskip.symm.trans hcons)
    rw [if_pos rfl]
    exact ⟨_, rfl⟩
  | cons next texts ih =>
    obtain ⟨hshorter, h⟩ :=
      yields_readValue_string allowance text (writeRest (next :: texts) ++ rest)
    obtain ⟨hshorter', ih⟩ := ih next
    have hskip : skipBlank (writeRest (next :: texts) ++ rest) =
        ',' :: ((write next).toList ++ (writeRest texts ++ rest)) := by
      rw [writeRest, List.cons_append, List.cons_append, List.append_assoc,
        skipBlank_cons (by decide)]
    have hnext := skipBlank_write next (writeRest texts ++ rest)
    rw [readItems, h]
    simp only [bind, Except.bind]
    split
    · next hnil => exact absurd (hskip.symm.trans hnil) (List.cons_ne_nil _ _)
    next c r hcons =>
    obtain ⟨rfl, rfl⟩ := List.cons.inj (hskip.symm.trans hcons)
    rw [if_neg (by decide), if_pos rfl]
    split
    · next hnil => exact absurd (hnext.symm.trans hnil) (List.cons_ne_nil _ _)
    · next hclose => exact absurd (List.cons.inj (hnext.symm.trans hclose)).1 (by decide)
    · rw [ih]
      exact ⟨_, rfl⟩

/-- Behind its opening bracket, an array of texts is read up to the closing one. -/
theorem yields_readArray (allowance : Nat) (texts : List String) (rest : List Char) :
    ∃ text, (writeArray texts).toList ++ rest = '[' :: text ∧
      Yields (readArray allowance text) (texts.map .string) rest := by
  cases texts with
  | nil =>
    refine ⟨']' :: rest, by simp [writeArray], ?_⟩
    have hskip : skipBlank (']' :: rest) = ']' :: rest := skipBlank_cons (by decide) rest
    rw [readArray]
    split
    · next hnil => exact absurd (hskip.symm.trans hnil) (List.cons_ne_nil _ _)
    · next r hclose =>
      obtain ⟨-, rfl⟩ := List.cons.inj (hskip.symm.trans hclose)
      exact ⟨_, rfl⟩
    · next c r hopen hcons =>
      obtain ⟨rfl, -⟩ := List.cons.inj (hskip.symm.trans hcons)
      exact (hopen rfl).elim
  | cons text texts =>
    refine ⟨(write text).toList ++ (writeRest texts ++ rest), ?_, ?_⟩
    · rw [toList_writeArray_cons, List.cons_append, List.append_assoc]
    · have hskip := skipBlank_write text (writeRest texts ++ rest)
      rw [readArray]
      split
      · next hnil => exact absurd (hskip.symm.trans hnil) (List.cons_ne_nil _ _)
      · next hclose => exact absurd (List.cons.inj (hskip.symm.trans hclose)).1 (by decide)
      · exact yields_readItems allowance text texts rest

/-- **An array of texts is a document that holds them in order.** -/
theorem read_writeArray (texts : List String) :
    Value.read (writeArray texts) = .ok (.array (texts.map .string)) := by
  obtain ⟨text, htext, hshorter, h⟩ := yields_readArray 126 texts []
  have hskip : skipBlank ('[' :: text) = '[' :: text := skipBlank_cons (by decide) text
  have hread : Yields (readValue maxDepth ('[' :: text)) (.array (texts.map .string)) [] := by
    rw [readValue]
    split
    · next hnil => exact absurd (hskip.symm.trans hnil) (List.cons_ne_nil _ _)
    next c r hcons =>
    obtain ⟨rfl, rfl⟩ := List.cons.inj (hskip.symm.trans hcons)
    simp only [maxDepth, h]
    exact ⟨_, rfl⟩
  obtain ⟨hshorter', hread⟩ := hread
  rw [Value.read, ← List.append_nil (writeArray texts).toList, htext, readChars, hread]
  rfl

end Value

end Extractor.Json
