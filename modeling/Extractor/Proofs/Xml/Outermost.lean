import Extractor.Proofs.Xml.Path
import Extractor.Proofs.Xml.Record
/-!
# Records are the outermost elements with their name

In a document that is a tree, the names of the path up to the last one are matched as early as
possible, and the records are the elements with the last name that start behind this match and
are in no other such element (`records_outermost`). Reading a record takes the tokens of its
element, and no more (`record_content`), so that the search goes on right behind it.
-/

namespace Extractor.Xml

open scoped List

/-- An element where it stands in a tree. -/
structure Place where
  name : String
  content : List Node
  /-- How many elements start before it. -/
  number : Nat
  /-- The names and numbers of the elements that it is in, innermost first. -/
  around : List (String × Nat)

namespace Node

mutual

/-- The elements of a node in document order; the first one has the given number. -/
def places (number : Nat) (around : List (String × Nat)) : Node → List Place
  | .element name _ content =>
    ⟨name, content, number, around⟩ :: placesOf (number + 1) ((name, number) :: around) content
  | .text _ => []

def placesOf (number : Nat) (around : List (String × Nat)) : List Node → List Place
  | [] => []
  | node :: rest => node.places number around ++ placesOf (number + node.tags.length) around rest

end

end Node

namespace Place

/-- What a record at this place stores. -/
def store (p : Place) : Store := Store.ofList (Node.entriesOf [] [] p.content)

/-- None of the elements around has the name and a number from `first` on. -/
def Outside (name : String) (first : Nat) (around : List (String × Nat)) : Prop :=
  ∀ e ∈ around, e.1 = name → e.2 < first

/-- An element with the name and a number from `first` on, and in no other such element. -/
def Outermost (name : String) (first : Nat) (p : Place) : Prop :=
  p.name = name ∧ first ≤ p.number ∧ Outside name first p.around

instance (name : String) (first : Nat) : DecidablePred (Outermost name first) := fun p =>
  inferInstanceAs (Decidable (p.name = name ∧ first ≤ p.number ∧
    ∀ e ∈ p.around, e.1 = name → e.2 < first))

end Place

/-- The earliest match of the wanted names, one behind the other, ends with the `n`th name. -/
def FirstMatch (wanted names : List String) (n : Nat) : Prop :=
  wanted <+ names.take n ∧ ∀ k, wanted <+ names.take k → n ≤ k

/-! ## The elements of a tree -/

section

variable {name : String} {first : Nat} {around : List (String × Nat)}

mutual

/-- Every start tag is the start of one element. -/
theorem Node.numbers_places (around : List (String × Nat)) : ∀ (node : Node) (number : Nat),
    (node.places number around).map Place.number = List.range' number node.tags.length
  | .element name attributes content, number => by
    rw [places, tags, List.map_cons, numbers_placesOf _ content, List.length_cons, List.range'_succ]
  | .text _, _ => rfl

theorem Node.numbers_placesOf (around : List (String × Nat)) : ∀ (nodes : List Node) (number : Nat),
    (placesOf number around nodes).map Place.number = List.range' number (tagsOf nodes).length
  | [], _ => rfl
  | node :: rest, number => by
    rw [placesOf, tagsOf, List.map_append, numbers_places _ node, numbers_placesOf _ rest,
      List.length_append, List.range'_append_1]

end

theorem Node.numbers_eq_range (node : Node) :
    (node.places 0 []).map Place.number = List.range (node.places 0 []).length := by
  have h := numbers_places [] node 0
  have hlength := congrArg List.length h
  rw [List.length_map, List.length_range'] at hlength
  rw [h, hlength, List.range_eq_range']

mutual

theorem Node.names_places (number : Nat) (around : List (String × Nat)) : ∀ node : Node,
    (node.places number around).map Place.name = node.tokens.filterMap Token.startName?
  | .element name attributes content => by
    rw [places, tokens, List.map_cons, names_placesOf _ _ content]
    simp [Token.startName?]
  | .text _ => rfl

theorem Node.names_placesOf (number : Nat) (around : List (String × Nat)) : ∀ nodes : List Node,
    (placesOf number around nodes).map Place.name = (tokensOf nodes).filterMap Token.startName?
  | [] => rfl
  | node :: rest => by
    rw [placesOf, tokensOf, List.map_append, names_places _ _ node, names_placesOf _ _ rest,
      List.filterMap_append]

end

mutual

theorem Node.suffix_around : ∀ (node : Node) {number : Nat} {around : List (String × Nat)},
    ∀ p ∈ node.places number around, around <:+ p.around
  | .element name attributes content, number, around, p, hp => by
    rw [places, List.mem_cons] at hp
    rcases hp with rfl | hp
    · exact List.suffix_rfl
    · exact (List.suffix_cons _ _).trans (suffix_around_of content p hp)
  | .text _, _, _, _, hp => absurd hp List.not_mem_nil

theorem Node.suffix_around_of : ∀ (nodes : List Node) {number : Nat} {around : List (String × Nat)},
    ∀ p ∈ placesOf number around nodes, around <:+ p.around
  | [], _, _, _, hp => absurd hp List.not_mem_nil
  | node :: rest, number, around, p, hp => by
    rw [placesOf, List.mem_append] at hp
    rcases hp with hp | hp
    · exact suffix_around node p hp
    · exact suffix_around_of rest p hp

end

theorem Place.outside_cons {e : String × Nat} :
    Outside name first (e :: around) ↔ (e.1 = name → e.2 < first) ∧ Outside name first around :=
  List.forall_mem_cons

theorem Node.filter_outermost_of_not_outside (h : ¬ Place.Outside name first around) (number : Nat)
    (nodes : List Node) :
    (placesOf number around nodes).filter (Place.Outermost name first) = [] := by
  rw [List.filter_eq_nil_iff]
  intro p hp
  rw [decide_eq_true_iff]
  rintro ⟨-, -, houtside⟩
  exact h fun e he => houtside e ((suffix_around_of nodes p hp).subset he)

end

/-! ## The earliest match -/

/-- What stands behind so many start tags. -/
def afterStarts : Nat → List Located → List Located
  | 0, tokens => tokens
  | _ + 1, [] => []
  | n + 1, t :: rest =>
    if t.token.startName?.isSome then afterStarts n rest else afterStarts (n + 1) rest

/-- The search for the names of a path, each behind the one before it. -/
def follow? : List String → List Located → Option (List Located)
  | [], tokens => some tokens
  | name :: path, tokens => (afterStart? name tokens).bind (follow? path)

section

variable {name : String} {wanted names : List String} {n : Nat} {t : Located}
  {tokens rest : List Located}

theorem FirstMatch.nil : FirstMatch [] names 0 := ⟨List.nil_sublist _, fun _ _ => Nat.zero_le _⟩

theorem FirstMatch.cons_self (h : FirstMatch wanted names n) :
    FirstMatch (name :: wanted) (name :: names) (n + 1) := by
  refine ⟨List.cons_sublist_cons.2 h.1, fun k hk => ?_⟩
  cases k with
  | zero => cases hk
  | succ k => exact Nat.succ_le_succ (h.2 k (List.cons_sublist_cons.1 hk))

theorem FirstMatch.cons_ne {other : String} (hne : other ≠ name)
    (h : FirstMatch (name :: wanted) names n) :
    FirstMatch (name :: wanted) (other :: names) (n + 1) := by
  refine ⟨h.1.cons other, fun k hk => ?_⟩
  cases k with
  | zero => cases hk
  | succ k =>
    rw [List.take_succ_cons, List.sublist_cons_iff, or_iff_left] at hk
    · exact Nat.succ_le_succ (h.2 k hk)
    · rintro ⟨_, heq, -⟩
      exact hne (List.cons.inj heq).1.symm

theorem FirstMatch.ne_zero (h : FirstMatch (name :: wanted) names n) : n ≠ 0 := by
  rintro rfl
  cases h.1

@[simp] theorem afterStarts_zero (tokens : List Located) : afterStarts 0 tokens = tokens := by
  rw [afterStarts]

theorem afterStarts_of_start (h : t.token.startName? = some name) :
    afterStarts (n + 1) (t :: rest) = afterStarts n rest := by
  rw [afterStarts, h]
  rfl

theorem afterStarts_of_not_start (h : t.token.startName? = none) (hn : n ≠ 0) :
    afterStarts n (t :: rest) = afterStarts n rest := by
  obtain ⟨n, rfl⟩ := Nat.exists_eq_succ_of_ne_zero hn
  rw [afterStarts, h]
  rfl

theorem startNames_afterStarts (n : Nat) (tokens : List Located) :
    startNames (afterStarts n tokens) = (startNames tokens).drop n := by
  induction tokens generalizing n with
  | nil => cases n <;> rfl
  | cons t rest ih =>
    cases n with
    | zero => rfl
    | succ n =>
      cases h : t.token.startName? with
      | some name => rw [afterStarts_of_start h, startNames_cons_of_start h, List.drop_succ_cons, ih]
      | none => rw [afterStarts_of_not_start h n.succ_ne_zero, startNames_cons_of_not_start h, ih]

theorem exists_follow? (h : wanted <+ startNames tokens) :
    ∃ rest, follow? wanted tokens = some rest := by
  induction wanted generalizing tokens with
  | nil => exact ⟨tokens, rfl⟩
  | cons name wanted ih =>
    cases hafter : afterStart? name tokens with
    | none => exact absurd h (not_cons_sublist_startNames hafter)
    | some content =>
      obtain ⟨rest, hrest⟩ := ih ((cons_sublist_startNames_iff hafter).1 h)
      exact ⟨rest, by rw [follow?, hafter, Option.bind_some, hrest]⟩

/-- **Each search takes the first tag with its name, and so the earliest match is found.** -/
theorem exists_firstMatch_of_follow? (h : follow? wanted tokens = some rest) :
    ∃ n, FirstMatch wanted (startNames tokens) n ∧ rest = afterStarts n tokens := by
  cases wanted with
  | nil =>
    cases h
    exact ⟨0, FirstMatch.nil, (afterStarts_zero _).symm⟩
  | cons name wanted =>
    induction tokens generalizing name wanted with
    | nil => cases h
    | cons t others ih =>
      rw [follow?, afterStart?_cons] at h
      cases hstart : t.token.startName? with
      | none =>
        rw [hstart, if_neg (Option.some_ne_none _).symm] at h
        obtain ⟨n, hn, hrest⟩ := ih name wanted h
        rw [startNames_cons_of_not_start hstart]
        exact ⟨n, hn, by rw [hrest, afterStarts_of_not_start hstart hn.ne_zero]⟩
      | some other =>
        rw [startNames_cons_of_start hstart]
        by_cases heq : other = name
        · rw [hstart, heq, if_pos rfl, Option.bind_some] at h
          rw [heq]
          cases wanted with
          | nil =>
            cases h
            refine ⟨1, FirstMatch.nil.cons_self, ?_⟩
            rw [afterStarts_of_start hstart, afterStarts_zero]
          | cons next wanted =>
            obtain ⟨n, hn, hrest⟩ := ih next wanted h
            exact ⟨n + 1, hn.cons_self, by rw [hrest, afterStarts_of_start hstart]⟩
        · rw [hstart, if_neg (fun h => heq (Option.some.inj h))] at h
          obtain ⟨n, hn, hrest⟩ := ih name wanted h
          exact ⟨n + 1, hn.cons_ne heq, by rw [hrest, afterStarts_of_start hstart]⟩

end

/-! ## Reading the records of a tree -/

theorem exists_tags_of_element {name : String} {attributes : Attributes} {content : List Node}
    {tokens : List Located}
    (h : tokens.map Located.token = (Node.element name attributes content).tokens) :
    ∃ start inner stop, tokens = start :: (inner ++ [stop]) ∧
      start.token = .start name attributes ∧ inner.map Located.token = Node.tokensOf content ∧
      stop.token = .stop name := by
  obtain ⟨start, others, rfl, hstart, hothers⟩ := List.map_eq_cons_iff.1 h
  obtain ⟨inner, ends, rfl, hinner, hends⟩ := List.map_eq_append_iff.1 hothers
  obtain ⟨stop, rfl, hstop⟩ := List.map_eq_singleton_iff.1 hends
  exact ⟨start, inner, stop, rfl, hstart, hinner, hstop⟩

/-- A record takes the content of its element and its end tag. -/
theorem record_content {name : String} {content : List Node} {tokens : List Located}
    {stop : Located} (rest : List Located) (h : tokens.map Located.token = Node.tokensOf content)
    (hstop : stop.token = .stop name) :
    record name (tokens ++ stop :: rest) =
      (Store.ofList (Node.entriesOf [] [] content), rest) := by
  have hread := recordFrom_nodes name [] [] Store.empty content (stop :: rest) h
  have hends (latest : Attributes) (store : Store) :
      (Reading.behind [] latest store).endsAt name stop.token = true := by
    simp [Reading.endsAt, Reading.behind, hstop]
  rw [record, show Reading.empty = .behind [] [] Store.empty from rfl, hread, recordFrom,
    if_pos (hends _ _), Reading.behind, Store.ofList_eq]

namespace Stream

variable {s : Stream} {last name : String} {t : Located} {tokens rest : List Located}

theorem allRecords_cons_of_ne (h : t.token.startName? ≠ some last) :
    s.allRecords last (t :: rest) = s.allRecords last rest := by
  have hafter : afterStart? last (t :: rest) = afterStart? last rest := by
    rw [afterStart?_cons, if_neg h]
  cases hrest : afterStart? last rest with
  | none => rw [allRecords_of_none hrest, allRecords_of_none (hafter.trans hrest)]
  | some content => rw [allRecords_of_some hrest, allRecords_of_some (hafter.trans hrest)]

theorem records_cons_of_start (h : t.token.startName? = some last) :
    (s.allRecords last (t :: rest)).records =
      (record last rest).1 :: (s.allRecords last (record last rest).2).records := by
  have hafter : afterStart? last (t :: rest) = some rest := by rw [afterStart?_cons, if_pos h]
  rw [allRecords_of_some hafter]

theorem allRecords_afterStarts_cons (n : Nat) (h : t.token.startName? = none) :
    s.allRecords last (afterStarts n (t :: rest)) = s.allRecords last (afterStarts n rest) := by
  cases n with
  | zero =>
    rw [afterStarts_zero, afterStarts_zero, allRecords_cons_of_ne]
    rw [h]
    exact (Option.some_ne_none _).symm
  | succ n => rw [afterStarts_of_not_start h n.succ_ne_zero]

theorem records_of_no_start (h : startNames tokens = []) :
    (s.allRecords last tokens).records = [] := by
  have hafter : afterStart? last tokens = none := by
    rw [afterStart?_eq_none_iff, h]
    exact List.not_mem_nil
  rw [allRecords_of_none hafter]

mutual

/-- From the start tag with number `first` on, a search finds the records of a node and then those
of what follows. -/
theorem records_node (s : Stream) (last : String) (first : Nat) : ∀ (node : Node) (number : Nat)
    {around : List (String × Nat)} {tokens : List Located} (rest : List Located),
      Place.Outside last first around → tokens.map Located.token = node.tokens →
      (s.allRecords last (afterStarts (first - number) (tokens ++ rest))).records =
        ((node.places number around).filter (Place.Outermost last first)).map Place.store ++
          (s.allRecords last (afterStarts (first - (number + node.tags.length)) rest)).records
  | .text content, number, around, tokens, rest, _, h => by
    obtain ⟨t, rfl, ht⟩ := List.map_eq_singleton_iff.1 h
    have htext : t.token.startName? = none := by rw [ht]; rfl
    rw [List.singleton_append, allRecords_afterStarts_cons _ htext]
    rfl
  | .element name attributes content, number, around, tokens, rest, houtside, h => by
    obtain ⟨start, inner, stop, rfl, hstart, hinner, hstop⟩ := exists_tags_of_element h
    have hname : start.token.startName? = some name := by rw [hstart]; rfl
    have hnone : stop.token.startName? = none := by rw [hstop]; rfl
    -- Both where the element is skipped and where it is searched, its content is gone through.
    have hcontent (hinside : Place.Outside last first ((name, number) :: around)) :
        (s.allRecords last (afterStarts (first - (number + 1)) (inner ++ stop :: rest))).records =
          ((Node.placesOf (number + 1) ((name, number) :: around) content).filter
            (Place.Outermost last first)).map Place.store ++
          (s.allRecords last (afterStarts (first - (number +
            (Node.element name attributes content).tags.length)) rest)).records := by
      rw [records_nodes s last first content (number + 1) (stop :: rest) hinside hinner,
        allRecords_afterStarts_cons _ hnone, Node.tags, List.length_cons]
      congr 4
      omega
    rw [Node.places, List.filter_cons, List.cons_append, List.append_assoc, List.singleton_append]
    by_cases hfirst : first ≤ number
    · rw [Nat.sub_eq_zero_of_le hfirst, afterStarts_zero]
      by_cases heq : name = last
      · subst heq
        have hinside : ¬ Place.Outside name first ((name, number) :: around) := by
          rw [Place.outside_cons]
          exact fun hlt => absurd (hlt.1 rfl) (not_lt.2 hfirst)
        have hself : Place.Outermost name first ⟨name, content, number, around⟩ :=
          ⟨rfl, hfirst, houtside⟩
        rw [records_cons_of_start hname, record_content rest hinner hstop,
          if_pos (by simpa using hself), Node.filter_outermost_of_not_outside hinside,
          Nat.sub_eq_zero_of_le (by omega), afterStarts_zero]
        rfl
      · have hself : ¬ Place.Outermost last first ⟨name, content, number, around⟩ :=
          fun h => heq h.1
        rw [allRecords_cons_of_ne (by rw [hname]; exact fun h => heq (Option.some.inj h)),
          if_neg (by simpa using hself)]
        rw [Nat.sub_eq_zero_of_le (by omega), afterStarts_zero] at hcontent
        exact hcontent (Place.outside_cons.2 ⟨fun h => absurd h heq, houtside⟩)
    · have hself : ¬ Place.Outermost last first ⟨name, content, number, around⟩ :=
        fun h => hfirst h.2.1
      rw [show first - number = first - (number + 1) + 1 by omega, afterStarts_of_start hname,
        if_neg (by simpa using hself)]
      exact hcontent (Place.outside_cons.2 ⟨fun _ => not_le.1 hfirst, houtside⟩)

theorem records_nodes (s : Stream) (last : String) (first : Nat) : ∀ (nodes : List Node)
    (number : Nat) {around : List (String × Nat)} {tokens : List Located} (rest : List Located),
      Place.Outside last first around → tokens.map Located.token = Node.tokensOf nodes →
      (s.allRecords last (afterStarts (first - number) (tokens ++ rest))).records =
        ((Node.placesOf number around nodes).filter (Place.Outermost last first)).map Place.store ++
          (s.allRecords last
            (afterStarts (first - (number + (Node.tagsOf nodes).length)) rest)).records
  | [], number, around, tokens, rest, _, h => by
    rw [List.map_eq_nil_iff.1 h]
    rfl
  | node :: nodes, number, around, tokens, rest, houtside, h => by
    obtain ⟨front, others, rfl, hfront, hothers⟩ := List.map_eq_append_iff.1 h
    rw [List.append_assoc, records_node s last first node number _ houtside hfront,
      records_nodes s last first nodes _ rest houtside hothers, Node.placesOf, Node.tagsOf,
      List.filter_append, List.map_append, List.append_assoc, List.length_append, Nat.add_assoc]

end

/-- The path up to its last name is followed, and then all records are read. -/
theorem records_below {parent : String} {path : List String} (hlast : path.getLast? = some last)
    (hfollow : follow? path.dropLast tokens = some rest) :
    (s.below parent path tokens).records = (s.allRecords last rest).records := by
  induction path generalizing parent tokens with
  | nil => cases hlast
  | cons segment path ih =>
    cases path with
    | nil =>
      cases hlast
      cases hfollow
      rfl
    | cons next path =>
      rw [List.dropLast_cons_cons, follow?, Option.bind_eq_some_iff] at hfollow
      obtain ⟨content, hcontent, hfollow⟩ := hfollow
      unfold below
      rw [hcontent]
      exact ih (by rwa [List.getLast?_cons_cons] at hlast) hfollow

/-! ## The records of a document -/

theorem startNames_eq (tokens : List Located) :
    startNames tokens = (tokens.map Located.token).filterMap Token.startName? := by
  rw [List.filterMap_map]
  rfl

theorem filterMap_startName?_of_text {tokens : List Token} (h : ∀ t ∈ tokens, t.isText = true) :
    tokens.filterMap Token.startName? = [] := by
  rw [List.filterMap_eq_nil_iff]
  intro t ht
  cases t with
  | text content => rfl
  | start name attributes => exact absurd (h _ ht) Bool.false_ne_true
  | stop name => exact absurd (h _ ht) Bool.false_ne_true

theorem startNames_of_text {tokens : List Located}
    (h : ∀ t ∈ tokens.map Located.token, t.isText = true) : startNames tokens = [] := by
  rw [startNames_eq, filterMap_startName?_of_text h]

/-- The start tag behind the text before the root is the first tag. -/
theorem firstTag_append {before behind : List Located} {tag : Located}
    (hbefore : ∀ t ∈ before.map Located.token, t.isText = true) (htag : tag.token.isText = false) :
    FirstTag (before ++ tag :: behind) tag behind :=
  ⟨htag, before, fun t ht => hbefore t.token (List.mem_map_of_mem ht), rfl⟩

theorem startName?_of_ok {root : String} {path : List String} {tag : Located}
    {behind : List Located} (h : FirstTag s.tokens tag behind)
    (hok : (s.extract (root :: path)).ok = true) : tag.token.startName? = some root := by
  by_contra hne
  have hnone : ¬ ∃ tag behind, FirstTag s.tokens tag behind ∧ tag.token.startName? = some root := by
    rintro ⟨tag', behind', h', hname⟩
    obtain ⟨rfl, rfl⟩ := h.unique h'
    exact hne hname
  obtain ⟨message, -, hfailure⟩ := extract_of_not_start path hnone
  rw [hfailure] at hok
  cases hok

theorem sublist_of_below_ok {parent : String} {path : List String}
    (hok : (s.below parent path tokens).ok = true) : path.dropLast <+ startNames tokens := by
  by_contra hne
  obtain ⟨_, _, _, _, _, _, hbelow⟩ := below_missing s parent hne
  rw [hbelow] at hok
  cases hok

/-- Below the root, the records are the outermost elements from some number on. -/
theorem exists_records_below {parent : String} {content : List Node} {path : List String}
    {inner : List Located} (behind : List Located) (hlast : path.getLast? = some last)
    (hok : (s.below parent path (inner ++ behind)).ok = true)
    (hinner : inner.map Located.token = Node.tokensOf content) (hbehind : startNames behind = []) :
    let elements := Node.placesOf 1 [(parent, 0)] content
    ∃ n, FirstMatch path.dropLast (elements.map Place.name) n ∧
      (s.below parent path (inner ++ behind)).records =
        (elements.filter (Place.Outermost last (n + 1))).map Place.store := by
  intro elements
  have hnames : startNames (inner ++ behind) = elements.map Place.name := by
    rw [startNames, List.filterMap_append, ← startNames, ← startNames, hbehind, List.append_nil,
      startNames_eq, hinner, Node.names_placesOf]
  obtain ⟨rest, hrest⟩ := exists_follow? (sublist_of_below_ok hok)
  obtain ⟨n, hn, rfl⟩ := exists_firstMatch_of_follow? hrest
  refine ⟨n, hnames ▸ hn, ?_⟩
  have houtside : Place.Outside last (n + 1) [(parent, 0)] := fun e he _ => by
    rw [List.mem_singleton.1 he]
    exact Nat.succ_pos n
  have hrecords := records_nodes s last (n + 1) content 1 behind houtside hinner
  rw [Nat.add_sub_cancel] at hrecords
  have hnone : startNames (afterStarts (n + 1 - (1 + (Node.tagsOf content).length)) behind) = [] := by
    rw [startNames_afterStarts, hbehind, List.drop_nil]
  rw [records_below hlast hrest, hrecords, records_of_no_start hnone, List.append_nil]

/-- **The records are the outermost elements with the last name of the path**, of those that start
behind the earliest match of the names before it; with a single name, the root is the record. All
elements count, each once and in document order, and a record stores what is in its element. -/
theorem records_outermost (s : Stream) (before after : List Token) (name : String)
    (attributes : Attributes) (content : List Node) (root : String) (path : List String)
    (hbefore : ∀ t ∈ before, t.isText = true) (hafter : ∀ t ∈ after, t.isText = true)
    (htokens : s.tokens.map Located.token =
      before ++ (Node.element name attributes content).tokens ++ after)
    (hok : (s.extract (root :: path)).ok = true) :
    let elements := (Node.element name attributes content).places 0 []
    let records := (s.extract (root :: path)).records
    (elements.map Place.number = List.range elements.length ∧
        elements.map Place.name = startNames s.tokens) ∧
      (path = [] → records = [Store.ofList (Node.entriesOf [] [] content)]) ∧
      ∀ last, path.getLast? = some last →
        ∃ n, FirstMatch path.dropLast (elements.tail.map Place.name) n ∧
          records = (elements.filter (Place.Outermost last (n + 1))).map Place.store := by
  intro elements records
  have hnames : elements.map Place.name = startNames s.tokens := by
    rw [startNames_eq, htokens, List.filterMap_append, List.filterMap_append,
      filterMap_startName?_of_text hbefore, filterMap_startName?_of_text hafter, List.append_nil]
    exact Node.names_places 0 [] _
  obtain ⟨front, back, htoks, hfront, rfl⟩ := List.map_eq_append_iff.1 htokens
  obtain ⟨front, tree, rfl, rfl, htree⟩ := List.map_eq_append_iff.1 hfront
  obtain ⟨start, inner, stop, rfl, hstart, hinner, hstop⟩ := exists_tags_of_element htree
  have hfirst : FirstTag s.tokens start (inner ++ stop :: back) := by
    rw [htoks, List.append_assoc, List.cons_append, List.append_assoc, List.singleton_append]
    exact firstTag_append hbefore (by rw [hstart]; rfl)
  have hroot := startName?_of_ok hfirst hok
  have hname : name = root := by
    rw [hstart] at hroot
    exact Option.some.inj hroot
  have hbelow := extract_of_start path hfirst hroot
  refine ⟨⟨Node.numbers_eq_range _, hnames⟩, ?_, fun last hlast => ?_⟩
  · rintro rfl
    subst hname
    show (s.extract [name]).records = _
    rw [hbelow, below, oneRecord, record_content back hinner hstop]
  · rw [hbelow] at hok
    have hback : startNames (stop :: back) = [] := by
      rw [startNames_cons_of_not_start (by rw [hstop]; rfl), startNames_of_text hafter]
    obtain ⟨n, hn, hrecords⟩ := exists_records_below (stop :: back) hlast hok hinner hback
    rw [← hname] at hn hrecords
    refine ⟨n, hn, ?_⟩
    have hself : ¬ Place.Outermost last (n + 1) ⟨name, content, 0, []⟩ := fun h =>
      absurd h.2.1 (Nat.not_succ_le_zero n)
    show (s.extract (root :: path)).records = _
    rw [hbelow, ← hname, hrecords]
    show _ = (List.filter _ (_ :: _)).map _
    rw [List.filter_cons_of_neg (by simpa using hself)]

/-- The root is named like the records, but starts before them; the element named like them in the
first record is part of it. -/
theorem records_outermost_nested :
    let content : List Node := [
      .element "c" [] [.element "b" [] [.element "a" [] [.text "1", .element "a" [] [.text "2"]]]],
      .element "a" [] [.text "3"]]
    let tokens := [.text "\n"] ++ (Node.element "a" [] content).tokens ++ [.text "\n"]
    let s : Stream := ⟨[], tokens.map (⟨·, 0⟩), none⟩
    (s.extract ["a", "b", "a"]).ok = true ∧
      (s.extract ["a", "b", "a"]).records =
        [Store.ofList [("", "1"), ("a", "2")], Store.ofList [("", "3")]] := by
  intro content tokens s
  have htokens : s.tokens.map Located.token =
      [.text "\n"] ++ (Node.element "a" [] content).tokens ++ [.text "\n"] := by decide
  have hfirst : FirstTag s.tokens ⟨.start "a" [], 0⟩ (s.tokens.drop 2) :=
    firstTag?_eq_some_iff.1 rfl
  have hok : (s.extract ["a", "b", "a"]).ok = true := by
    rw [extract_of_start _ hfirst rfl]
    exact below_ok (by decide)
  obtain ⟨-, -, hrecords⟩ := records_outermost s [.text "\n"] [.text "\n"] "a" [] content "a"
    ["b", "a"] (by decide) (by decide) htokens hok
  obtain ⟨n, ⟨hmatch, hleast⟩, hrecords⟩ := hrecords "a" rfl
  refine ⟨hok, ?_⟩
  have hearlier : ∀ k ≤ 1, ¬ ["b"] <+ ["c", "b", "a", "a", "a"].take k := by decide
  have hn : n = 2 := le_antisymm (hleast 2 (by decide))
    (not_le.1 fun hle => hearlier n (Nat.le_of_lt_succ (Nat.lt_succ_of_le hle)) hmatch)
  subst hn
  rw [hrecords]
  decide +kernel

end Stream

end Extractor.Xml
