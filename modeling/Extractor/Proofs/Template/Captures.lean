import Extractor.Proofs.Template.Introducer
import Extractor.Proofs.Text.Literal
/-!
# What a lambda of a template changes

The map of a record is put into the captures of a lambda after the placeholders have become
expressions. It is one insertion behind an opening bracket, the first one that starts a lambda. The
bracket is one of the template itself unless a key has a bracket in it, or a path has `]()`: no other
expression looks like the start of a lambda (`Unmistakable.not_opens`). Then every expression stands in
the code as it is (`substitute_keeps`); a path `[]()` gets the map into its own text
(`substitute_not_kept`).
-/

namespace Extractor.Template

open scoped List

/-- The same text with a mention of the map behind one of its opening brackets. -/
def Opened (text opened : String) : Prop :=
  ∃ front back, text = front ++ "[" ++ back ∧
    (opened = front ++ "[&mapping" ++ back ∨ opened = front ++ "[&mapping," ++ back)

/-- In the expression for the placeholder, no bracket opens a lambda. -/
def Unmistakable : Placeholder → Prop
  | .field key => '[' ∉ key.written.toList
  | .list path => ¬ capturesEnd <:+: path.toList
  | .join path => ¬ capturesEnd <:+: path.toList

/-! ## Brackets of an expression -/

section

variable {s front back inner tail captures rest : List Char}

/-- What escaping puts in starts with a backslash. -/
theorem prefix_of_prefix_escape {marker : List Char} (hmarker : '\\' ∉ marker)
    (h : marker <+: s.flatMap Text.escapeChar) : marker <+: s := by
  induction marker generalizing s with
  | nil => exact List.nil_prefix
  | cons d marker ih =>
    rw [List.mem_cons, not_or] at hmarker
    obtain ⟨hd, hmarker⟩ := hmarker
    cases s with
    | nil => exact absurd (List.prefix_nil.1 h) (List.cons_ne_nil _ _)
    | cons c s =>
      rw [List.flatMap_cons] at h
      rcases Text.escapeChar_cases c with ⟨l, hescape, -⟩ | ⟨hescape, -⟩
      · rw [hescape] at h
        exact absurd (List.cons_prefix_cons.1 h).1.symm hd
      · rw [hescape, List.singleton_append, List.cons_prefix_cons] at h
        rw [List.cons_prefix_cons]
        exact ⟨h.1, ih hmarker h.2⟩

/-- A bracket that is closed before a call in the escaped text is closed there in the text. -/
theorem infix_of_infix_escape (h : capturesEnd <:+: s.flatMap Text.escapeChar) :
    capturesEnd <:+: s := by
  induction s with
  | nil => exact h
  | cons c s ih =>
    rcases Text.escapeChar_cases c with ⟨l, hescape, hl⟩ | ⟨hescape, -⟩
    · rw [List.flatMap_cons, hescape, List.cons_append, List.singleton_append,
        List.infix_cons_iff, List.infix_cons_iff] at h
      rcases h with h | h | h
      · exact absurd (List.cons_prefix_cons.1 h).1 (by decide)
      · rw [← (List.cons_prefix_cons.1 h).1] at hl
        cases hl
      · exact List.infix_cons (ih h)
    · have hcons : (c :: s).flatMap Text.escapeChar = c :: s.flatMap Text.escapeChar := by
        rw [List.flatMap_cons, hescape, List.singleton_append]
      rw [hcons, List.infix_cons_iff, ← hcons] at h
      rcases h with h | h
      · exact (prefix_of_prefix_escape (by decide) h).isInfix
      · exact List.infix_cons (ih h)

/-- A character that is not in the second part stands in the first. -/
theorem exists_append_left {x : Char} {t y : List Char} (h : s ++ t = front ++ x :: y)
    (hx : x ∉ t) : ∃ inner, s = front ++ x :: inner ∧ y = inner ++ t := by
  rcases List.append_eq_append_iff.1 h with ⟨a, rfl, ht⟩ | ⟨b, rfl, hb⟩
  · exact absurd (ht ▸ List.mem_append_right a List.mem_cons_self) hx
  · rcases List.cons_eq_append_iff.1 hb with ⟨rfl, ht⟩ | ⟨inner, rfl, rfl⟩
    · exact absurd (ht ▸ List.mem_cons_self) hx
    · exact ⟨inner, rfl, rfl⟩

/-- A character that is not in the first part stands in the second. -/
theorem exists_append_right {x : Char} {t y : List Char} (h : s ++ t = front ++ x :: y)
    (hx : x ∉ s) : ∃ inner, front = s ++ inner ∧ t = inner ++ x :: y := by
  rcases List.append_eq_append_iff.1 h with ⟨a, rfl, ht⟩ | ⟨b, rfl, hb⟩
  · exact ⟨a, rfl, ht⟩
  · rcases List.cons_eq_append_iff.1 hb with ⟨rfl, ht⟩ | ⟨inner, rfl, rfl⟩
    · exact ⟨[], by simp, ht⟩
    · exact absurd (List.mem_append_right front List.mem_cons_self) hx

/-- Captures end at the first closing bracket. If no call follows the last one of a text, it is an
earlier one that they end at. -/
theorem infix_of_captures {c : Char} (hc : c ≠ '(') (hcaptures : ']' ∉ captures)
    (h : inner ++ ']' :: c :: rest = captures ++ (capturesEnd ++ back)) :
    capturesEnd <:+: inner := by
  induction captures generalizing inner with
  | nil =>
    cases inner with
    | nil => exact absurd (List.cons.inj (List.cons.inj h).2).1 hc
    | cons d inner =>
      rw [List.cons_append, List.nil_append, capturesEnd, List.cons_append, List.cons.injEq] at h
      obtain ⟨rfl, h⟩ := h
      have hcall : ['(', ')'] <+: inner :=
        Text.prefix_of_prefix_append (c := ']') (by decide) ⟨back, h.symm⟩
      have hend : capturesEnd <+: ']' :: inner := List.cons_prefix_cons.2 ⟨rfl, hcall⟩
      exact hend.isInfix
  | cons d captures ih =>
    rw [List.mem_cons, not_or] at hcaptures
    cases inner with
    | nil => exact absurd (List.cons.inj h).1 hcaptures.1
    | cons e inner => exact List.infix_cons (ih hcaptures.2 (List.cons.inj h).2)

end

/-! ## Expressions -/

section

variable {front captures back y rest : List Char}

/-- The look-up of a path in the code, up to the bracket that closes it. -/
def lookupHead (path : String) : List Char :=
  (mapName ++ "[QStringLiteral(").toList ++
    '"' :: (path.toList.flatMap Text.escapeChar ++ '"' :: [')'])

theorem toList_lookup (path : String) : (lookup path).toList = lookupHead path ++ [']'] := by
  have hcode : lookup path = mapName ++ "[" ++ Text.literalOf (Text.escape path) ++ "]" := rfl
  have hopen : "[".toList ++ "QStringLiteral(\"".toList = "[QStringLiteral(".toList ++ ['"'] := by
    decide +kernel
  have hclose : "]".toList = [']'] := by decide
  rw [hcode, String.toList_append, String.toList_append, String.toList_append,
    Text.toList_literalOf, Text.toList_escape, hclose, lookupHead, String.toList_append,
    List.append_assoc mapName.toList, ← List.append_assoc "[".toList, hopen]
  simp

theorem not_infix_of_not_mem {s : List Char} (h : ']' ∉ s) : ¬ capturesEnd <:+: s :=
  fun hclosed => h (hclosed.subset List.mem_cons_self)

theorem infix_of_infix_lookupHead {path : String} (h : capturesEnd <:+: lookupHead path) :
    capturesEnd <:+: path.toList := by
  have hquote : '"' ∉ capturesEnd := by decide
  have hne : capturesEnd ≠ [] := List.cons_ne_nil _ _
  rcases (Text.infix_append_cons_iff hquote hne).1 h with h | h
  · exact absurd h (not_infix_of_not_mem (by decide +kernel))
  rcases (Text.infix_append_cons_iff hquote hne).1 h with h | h
  · exact infix_of_infix_escape h
  · exact absurd h (not_infix_of_not_mem (by decide +kernel))

/-- No bracket of a look-up opens a lambda, if none in its path is closed before a call. -/
theorem not_opens_lookup {path : String} {c : Char} {before tail : List Char}
    (hpath : ¬ capturesEnd <:+: path.toList) (hbefore : '[' ∉ before) (htail : '[' ∉ c :: tail)
    (hc : c ≠ '(') (hcaptures : ']' ∉ captures)
    (hopen : before ++ (lookup path).toList ++ c :: tail = front ++ '[' :: y)
    (hclose : y ++ rest = captures ++ (capturesEnd ++ back)) : False := by
  have hend : '[' ∉ ']' :: c :: tail := by
    rw [List.mem_cons, not_or]
    exact ⟨by decide, htail⟩
  rw [toList_lookup, ← List.append_assoc, List.append_assoc, List.singleton_append] at hopen
  obtain ⟨inner, hinner, rfl⟩ := exists_append_left hopen hend
  obtain ⟨others, -, hhead⟩ := exists_append_right hinner hbefore
  rw [List.append_assoc, List.cons_append, List.cons_append] at hclose
  have hfound : capturesEnd <:+: inner := infix_of_captures hc hcaptures hclose
  have hsuffix : inner <:+ lookupHead path := ⟨others ++ ['['], by rw [hhead]; simp⟩
  exact hpath (infix_of_infix_lookupHead (hfound.trans hsuffix.isInfix))

theorem not_mem_append {x : Char} {before text after : String} (hbefore : x ∉ before.toList)
    (htext : x ∉ text.toList) (hafter : x ∉ after.toList) :
    x ∉ (before ++ text ++ after).toList := by
  rw [String.toList_append, String.toList_append, List.mem_append, List.mem_append]
  rintro ((h | h) | h)
  · exact hbefore h
  · exact htext h
  · exact hafter h

theorem not_mem_expression {key : Key} (hkey : '[' ∉ key.written.toList) :
    '[' ∉ key.expression.toList := by
  cases key with
  | symbol name => exact hkey
  | literal text =>
    have htext : '[' ∉ text.toList := by
      intro h
      apply hkey
      rw [Key.written, String.toList_append, String.toList_append]
      exact List.mem_append_left _ (List.mem_append_right _ h)
    exact not_mem_append (by decide +kernel) htext (by decide +kernel)

theorem resolve_field (key : Key) : expressions.resolve (.field key) =
    "PlainTextValue::text(entry->value(" ++ key.expression ++ "))" := rfl

theorem resolve_list (path : String) : expressions.resolve (.list path) =
    "const_cast<const QStringList &>(" ++ lookup path ++ ")" := rfl

theorem resolve_join (path : String) : expressions.resolve (.join path) =
    lookup path ++ ".join(" ++ Text.literalOf "\\n" ++ ")" := rfl

/-- **No bracket of an expression opens a lambda.** -/
theorem Unmistakable.not_opens {p : Placeholder} (hp : Unmistakable p)
    (hcaptures : ']' ∉ captures)
    (hopen : (expressions.resolve p).toList = front ++ '[' :: y)
    (hclose : y ++ rest = captures ++ (capturesEnd ++ back)) : False := by
  cases p with
  | field key =>
    have hnone : '[' ∉ (expressions.resolve (.field key)).toList := by
      rw [resolve_field]
      exact not_mem_append (by decide +kernel) (not_mem_expression hp) (by decide +kernel)
    rw [hopen] at hnone
    exact hnone (List.mem_append_right front List.mem_cons_self)
  | list path =>
    have hbefore : '[' ∉ "const_cast<const QStringList &>(".toList := by decide +kernel
    have hend : ")".toList = [')'] := by decide
    rw [resolve_list, String.toList_append, String.toList_append, hend] at hopen
    exact not_opens_lookup hp hbefore (by decide) (by decide) hcaptures hopen hclose
  | join path =>
    have hdot : ".join(".toList = '.' :: "join(".toList := by decide +kernel
    have htail : '[' ∉ '.' :: ("join(".toList ++
        ((Text.literalOf "\\n").toList ++ ")".toList)) := by decide +kernel
    rw [resolve_join] at hopen
    simp only [String.toList_append, hdot, List.append_assoc, List.cons_append] at hopen
    rw [← List.nil_append (lookup path).toList] at hopen
    exact not_opens_lookup hp List.not_mem_nil htail (by decide) hcaptures hopen hclose

end

/-! ## The code of a template -/

/-- The code of some segments. -/
def written (segments : List Segment) : String := String.join (segments.map expressions.render)

theorem written_cons (segment : Segment) (others : List Segment) :
    written (segment :: others) = expressions.render segment ++ written others := by
  rw [written, List.map_cons, String.join_cons, ← written]

/-- In the code of the segments, the character between `front` and `back` is one of a single
segment. -/
def InSegment (segments : List Segment) (front : List Char) (c : Char) (back : List Char) : Prop :=
  ∃ before segment after x y, segments = before ++ segment :: after ∧
    (expressions.render segment).toList = x ++ c :: y ∧
    front = (written before).toList ++ x ∧ back = y ++ (written after).toList

section

variable {segments others : List Segment} {front back inner : List Char} {c : Char}

theorem InSegment.cons (first : Segment) (h : InSegment others inner c back) :
    InSegment (first :: others) ((expressions.render first).toList ++ inner) c back := by
  obtain ⟨before, segment, after, x, y, rfl, hsegment, rfl, hback⟩ := h
  refine ⟨first :: before, segment, after, x, y, rfl, hsegment, ?_, hback⟩
  rw [written_cons, String.toList_append, List.append_assoc]

/-- Every character of the code belongs to a segment. -/
theorem inSegment (h : (written segments).toList = front ++ c :: back) :
    InSegment segments front c back := by
  induction segments generalizing front with
  | nil => exact absurd h.symm (List.append_ne_nil_of_right_ne_nil front (List.cons_ne_nil c back))
  | cons first others ih =>
    rw [written_cons, String.toList_append] at h
    rcases List.append_eq_append_iff.1 h with ⟨inner, rfl, hothers⟩ | ⟨inner, hfirst, hrest⟩
    · exact (ih hothers).cons first
    · rcases List.cons_eq_append_iff.1 hrest with ⟨rfl, hothers⟩ | ⟨y, rfl, hback⟩
      · -- The character is the first one behind the first segment.
        rw [List.append_nil] at hfirst
        have hbehind : InSegment others [] c back := ih hothers
        have hcons := hbehind.cons first
        rwa [List.append_nil, hfirst] at hcons
      · exact ⟨[], first, others, front, y, rfl, hfirst, rfl, hback⟩

end

/-- What was behind the bracket stays behind the map. -/
theorem introducer_append (captures back : List Char) : introducer captures ++ back =
    '[' :: '&' :: mapName.toList ++ (if captures.isEmpty then [] else [',']) ++
      (captures ++ (capturesEnd ++ back)) := by
  cases captures with
  | nil => simp [introducer, capturesEnd]
  | cons c captures => simp [introducer, capturesEnd]

theorem opened_of_introducer {text : String} {x y : List Char} (captures : List Char)
    (h : text.toList = x ++ '[' :: y) :
    Opened text (String.ofList (x ++ ('[' :: '&' :: mapName.toList ++
      (if captures.isEmpty then [] else [',']) ++ y))) := by
  refine ⟨String.ofList x, String.ofList y, ?_, ?_⟩
  · rw [← String.toList_inj, h]
    simp
  · cases captures with
    | nil => left; rw [← String.toList_inj]; simp [mapName]
    | cons c captures => right; rw [← String.toList_inj]; simp [mapName]

theorem fill_eq (text : String) : fill expressions text = written (scan text) := rfl

/-- **What a lambda of a template changes.** Without a lambda the code of a template is its
literal text with the expressions in it. With one, the map is put behind an opening bracket in one
segment, and all others are as they were. This segment is literal text if no key in the template has
an opening bracket and no path a closing one before a call. -/
theorem substitute_keeps (text : String) :
    (¬ HasIntroducer (fill expressions text) → substitute text = written (scan text)) ∧
    (HasIntroducer (fill expressions text) →
      ∃ before segment after opened, scan text = before ++ segment :: after ∧
        Opened (expressions.render segment) opened ∧
        substitute text = written before ++ opened ++ written after ∧
        ((∀ p, .placeholder p ∈ scan text → Unmistakable p) →
          ∃ literal, segment = .text literal)) := by
  rcases injectChars_cases (fill expressions text).toList with
    ⟨hnone, hinject⟩ | ⟨front, captures, back, hat, hinject⟩
  · have hnot : ¬ HasIntroducer (fill expressions text) := by
      rintro ⟨front, captures, back, h⟩
      exact hnone front captures back h
    refine ⟨fun _ => ?_, fun h => absurd h hnot⟩
    rw [substitute, inject, hinject, String.ofList_toList, fill_eq]
  · refine ⟨fun h => absurd ⟨front, captures, back, hat⟩ h, fun _ => ?_⟩
    have htext := hat.text_eq
    rw [fill_eq] at htext
    obtain ⟨before, segment, after, x, y, hscan, hsegment, rfl, hback⟩ := inSegment htext
    refine ⟨before, segment, after, _, hscan, opened_of_introducer captures hsegment,
      ?_, fun hplain => ?_⟩
    · rw [substitute, inject, hinject, introducer_append, hback, ← String.toList_inj]
      simp
    · cases segment with
      | text literal => exact ⟨literal, rfl⟩
      | placeholder p =>
        have hp : Unmistakable p := hplain p (by rw [hscan]; simp)
        have hcaptures : ']' ∉ captures := fun h =>
          absurd (hat.captures_ok _ h) (by decide)
        exact (hp.not_opens hcaptures hsegment hback.symm).elim

/-- A lambda that is called where it stands. -/
def calledLambda : String := "[]() \x7b return \x7b\x7ba[0]\x7d\x7d; \x7d()"

/-- The bracket of the path in it stays as it is. -/
theorem substitute_calledLambda :
    HasIntroducer (fill expressions calledLambda) ∧
    ∃ before literal after opened, scan calledLambda = before ++ .text literal :: after ∧
      Opened literal opened ∧ substitute calledLambda = written before ++ opened ++ written after := by
  have hintroducer : HasIntroducer (fill expressions calledLambda) := by
    refine ⟨[], [], (fill expressions calledLambda).toList.drop 4, ?_, fun c hc => ?_⟩
    · decide +kernel
    · exact absurd hc List.not_mem_nil
  have hplain : ∀ p, .placeholder p ∈ scan calledLambda → Unmistakable p := by
    have hscan : scan calledLambda =
        [.text "[]() \x7b return ", .placeholder (.join "a[0]"), .text "; \x7d()"] := by
      decide +kernel
    intro p hp
    rw [hscan] at hp
    obtain rfl : p = .join "a[0]" := by simpa using hp
    show ¬ capturesEnd <:+: "a[0]".toList
    decide +kernel
  obtain ⟨before, segment, after, opened, hscan, hopened, hcode, hliteral⟩ :=
    (substitute_keeps calledLambda).2 hintroducer
  obtain ⟨literal, rfl⟩ := hliteral hplain
  exact ⟨hintroducer, before, literal, after, opened, hscan, hopened, hcode⟩

/-- A path that looks like the start of a lambda. -/
def lambdaPath : String := "\x7b\x7b[]()\x7d\x7d"

/-- The path gets the map into its text. -/
theorem substitute_not_kept : ¬ ∀ text : String, ∃ pieces : List String,
    List.Forall₂ (fun segment piece => ∀ p, segment = .placeholder p →
      piece = expressions.resolve p) (scan text) pieces ∧
    substitute text = String.join pieces := by
  intro h
  obtain ⟨pieces, hpieces, hcode⟩ := h lambdaPath
  have hscan : scan lambdaPath = [.placeholder (.join "[]()")] := by decide +kernel
  rw [hscan] at hpieces
  cases hpieces with
  | cons hpiece hrest =>
    cases hrest
    rw [hpiece _ rfl] at hcode
    revert hcode
    decide +kernel

end Extractor.Template
