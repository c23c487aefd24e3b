import Extractor.Proofs.Text.Search
import Extractor.Text.Literal
import Mathlib.Data.List.Basic
/-!
# What a string literal denotes

`readLiteral?` reads the inside of a literal as the compiler of the emitted code does. An escaped
text is read back as it was, up to the quote that ends the literal (`readLiteral?_escape`). A text
that is put into the literal without escapes denotes itself only if none of its letters needs one
(`denoted?_literalOf_iff`).
-/

namespace Extractor.Text

/-- The character that stands for another one behind a backslash. -/
def unescape? : Char → Option Char
  | '\\' => some '\\'
  | '"' => some '"'
  | 'n' => some '\n'
  | 't' => some '\t'
  | _ => none

/-- What a literal denotes whose inside starts the given characters, and the characters behind its
closing quote. A literal ends on the line on which it starts. -/
def readLiteral? : List Char → Option (List Char × List Char)
  | [] => none
  | '"' :: rest => some ([], rest)
  | '\n' :: _ => none
  | ['\\'] => none
  | '\\' :: l :: rest =>
    (unescape? l).bind fun c => (readLiteral? rest).map fun (text, after) => (c :: text, after)
  | c :: rest => (readLiteral? rest).map fun (text, after) => (c :: text, after)

/-- What the first literal in some code denotes. -/
def firstLiteral? (code : String) : Option String :=
  match code.toList.dropWhile (· ≠ '"') with
  | [] => none
  | _ :: rest => (readLiteral? rest).map fun (text, _) => String.ofList text

/-- What an expression denotes that is one literal and nothing else. -/
def denoted? (expression : String) : Option String :=
  match ("QStringLiteral(\"".toList.isPrefixOf? expression.toList).bind readLiteral? with
  | some (text, [')']) => some (String.ofList text)
  | _ => none

/-- Every letter stands for itself in a literal. -/
def Verbatim (s : List Char) : Prop := ∀ c ∈ s, c ≠ '\\' ∧ c ≠ '"' ∧ c ≠ '\n'

instance (s : List Char) : Decidable (Verbatim s) :=
  inferInstanceAs (Decidable (∀ c ∈ s, c ≠ '\\' ∧ c ≠ '"' ∧ c ≠ '\n'))

section

variable {c l : Char} {s rest text after : List Char}

theorem escapeChar_cases (c : Char) :
    (∃ l, escapeChar c = ['\\', l] ∧ unescape? l = some c) ∨
      escapeChar c = [c] ∧ c ≠ '\\' ∧ c ≠ '"' ∧ c ≠ '\n' := by
  unfold escapeChar
  split
  · exact .inl ⟨_, rfl, rfl⟩
  · exact .inl ⟨_, rfl, rfl⟩
  · exact .inl ⟨_, rfl, rfl⟩
  · exact .inl ⟨_, rfl, rfl⟩
  · next hbackslash hquote hbreak _ => exact .inr ⟨rfl, hbackslash, hquote, hbreak⟩

theorem readLiteral?_backslash (l : Char) (rest : List Char) :
    readLiteral? ('\\' :: l :: rest) = (unescape? l).bind fun c =>
      (readLiteral? rest).map fun (text, after) => (c :: text, after) := by
  rw [readLiteral?]

theorem readLiteral?_escaped (h : unescape? l = some c) :
    readLiteral? ('\\' :: l :: rest) =
      (readLiteral? rest).map fun (text, after) => (c :: text, after) := by
  rw [readLiteral?_backslash, h]
  rfl

theorem readLiteral?_plain (hbackslash : c ≠ '\\') (hquote : c ≠ '"') (hbreak : c ≠ '\n') :
    readLiteral? (c :: rest) =
      (readLiteral? rest).map fun (text, after) => (c :: text, after) := by
  rw [readLiteral?]
  · exact hquote
  · exact hbreak
  · exact fun h _ => hbackslash h
  · exact fun l rest h _ => hbackslash h

/-- **An escaped text is read back.** -/
theorem readLiteral?_escape (s rest : List Char) :
    readLiteral? (s.flatMap escapeChar ++ '"' :: rest) = some (s, rest) := by
  induction s with
  | nil => rfl
  | cons c s ih =>
    rcases escapeChar_cases c with ⟨l, hescape, hl⟩ | ⟨hescape, hbackslash, hquote, hbreak⟩
    · rw [List.flatMap_cons, hescape, List.append_assoc, List.cons_append, List.singleton_append,
        readLiteral?_escaped hl, ih]
      rfl
    · rw [List.flatMap_cons, hescape, List.append_assoc, List.singleton_append,
        readLiteral?_plain hbackslash hquote hbreak, ih]
      rfl

theorem readLiteral?_verbatim (h : Verbatim s) (rest : List Char) :
    readLiteral? (s ++ '"' :: rest) = some (s, rest) := by
  induction s with
  | nil => rfl
  | cons c s ih =>
    obtain ⟨⟨hbackslash, hquote, hbreak⟩, hs⟩ := List.forall_mem_cons.1 h
    rw [List.cons_append, readLiteral?_plain hbackslash hquote hbreak, ih hs]
    rfl

/-- Each letter that is read takes up a character at least, and the quote one more. -/
theorem length_of_readLiteral? (h : readLiteral? s = some (text, after)) :
    text.length + after.length < s.length := by
  fun_induction readLiteral? s generalizing text after with
  | case1 => cases h
  | case2 rest =>
    cases h
    simp
  | case3 => cases h
  | case4 => cases h
  | case5 l rest ih =>
    obtain ⟨c, -, h⟩ := Option.bind_eq_some_iff.1 h
    obtain ⟨⟨text, after⟩, hrest, h⟩ := Option.map_eq_some_iff.1 h
    cases h
    have hlength := ih hrest
    simp only [List.length_cons]
    omega
  | case6 c rest _ _ _ _ ih =>
    obtain ⟨⟨text, after⟩, hrest, h⟩ := Option.map_eq_some_iff.1 h
    cases h
    have hlength := ih hrest
    simp only [List.length_cons]
    omega

/-- An escape is longer than the letter that it stands for, so what follows it cannot make up for
the letter. -/
theorem readLiteral?_backslash_ne :
    readLiteral? ('\\' :: (s ++ '"' :: rest)) ≠ some (c :: s, rest) := by
  intro h
  obtain ⟨l, more, hmore⟩ := List.exists_cons_of_ne_nil
    (List.append_ne_nil_of_right_ne_nil s (List.cons_ne_nil '"' rest))
  rw [hmore, readLiteral?_backslash] at h
  obtain ⟨d, -, h⟩ := Option.bind_eq_some_iff.1 h
  obtain ⟨⟨text, after⟩, hrest, h⟩ := Option.map_eq_some_iff.1 h
  cases h
  have hread := length_of_readLiteral? hrest
  have hlength := congrArg List.length hmore
  simp only [List.length_append, List.length_cons] at hlength
  omega

/-- **A text denotes itself if no letter of it has to be escaped.** -/
theorem readLiteral?_eq_self_iff :
    readLiteral? (s ++ '"' :: rest) = some (s, rest) ↔ Verbatim s := by
  refine ⟨fun h => ?_, fun h => readLiteral?_verbatim h rest⟩
  induction s with
  | nil => exact fun c hc => absurd hc List.not_mem_nil
  | cons c s ih =>
    rw [List.cons_append] at h
    have hbackslash : c ≠ '\\' := by
      rintro rfl
      exact readLiteral?_backslash_ne h
    have hquote : c ≠ '"' := by
      rintro rfl
      cases h
    have hbreak : c ≠ '\n' := by
      rintro rfl
      cases h
    rw [readLiteral?_plain hbackslash hquote hbreak] at h
    obtain ⟨⟨text, after⟩, hrest, h⟩ := Option.map_eq_some_iff.1 h
    cases h
    exact List.forall_mem_cons.2 ⟨⟨hbackslash, hquote, hbreak⟩, ih hrest⟩

end

section

variable {before : String}

theorem escape_append (s t : String) : escape (s ++ t) = escape s ++ escape t := by
  rw [← String.toList_inj]
  simp

theorem firstLiteral?_append (h : '"' ∉ before.toList) (code : String) :
    firstLiteral? (before ++ code) = firstLiteral? code := by
  have hdrop : (before ++ code).toList.dropWhile (· ≠ '"') = code.toList.dropWhile (· ≠ '"') := by
    rw [String.toList_append]
    refine List.dropWhile_append_of_pos fun c hc => ?_
    rw [decide_eq_true_iff]
    rintro rfl
    exact h hc
  rw [firstLiteral?, firstLiteral?, hdrop]

theorem firstLiteral?_quoted (text after : String) :
    firstLiteral? ("\"" ++ escape text ++ "\"" ++ after) = some text := by
  have hcode : ("\"" ++ escape text ++ "\"" ++ after).toList =
      '"' :: (text.toList.flatMap escapeChar ++ '"' :: after.toList) := by
    simp
  simp [firstLiteral?, hcode, readLiteral?_escape]

theorem toList_literalOf (inner : String) : (literalOf inner).toList =
    "QStringLiteral(\"".toList ++ (inner.toList ++ '"' :: [')']) := by
  have hcode : literalOf inner = "QStringLiteral(\"" ++ inner ++ "\")" := rfl
  have hclose : "\")".toList = '"' :: [')'] := by decide
  rw [hcode, String.toList_append, String.toList_append, List.append_assoc, hclose]

theorem denoted?_eq_some_iff {inner text : String} :
    denoted? (literalOf inner) = some text ↔
      readLiteral? (inner.toList ++ '"' :: [')']) = some (text.toList, [')']) := by
  have hstart : "QStringLiteral(\"".toList.isPrefixOf? (literalOf inner).toList =
      some (inner.toList ++ '"' :: [')']) :=
    isPrefixOf?_eq_some_iff.2 (toList_literalOf inner)
  unfold denoted?
  rw [hstart, Option.bind_some]
  split
  · next read hread => simp [hread, ← String.toList_inj]
  · next hread =>
    refine iff_of_false (fun h => nomatch h) fun h => ?_
    exact hread _ h

/-- **A literal without escapes denotes what stands in it if all of it can stand there.** -/
theorem denoted?_literalOf_iff {text : String} :
    denoted? (literalOf text) = some text ↔ Verbatim text.toList := by
  rw [denoted?_eq_some_iff, readLiteral?_eq_self_iff]

end

end Extractor.Text
