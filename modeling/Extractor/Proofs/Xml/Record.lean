import Extractor.Proofs.Store
import Extractor.Proofs.Text.Search
import Extractor.Proofs.Xml.Tree
/-!
# A record stores what its tree says

Reading the tokens of some nodes leaves the open elements as they were, and adds the entries of the
nodes to the store (`recordFrom_nodes`). No end tag among them ends the record, since the element
that it closes is open then, whatever its name. So `record` stops behind the end tag of the record,
and its store holds the entries of the tree.
-/

namespace Extractor.Xml

namespace Attributes

theorem present_cons (name value : String) (rest : Attributes) :
    present ((name, value) :: rest) =
      if Text.trim value = "" then present rest
      else (name, Text.trim value) :: present rest := by
  unfold present
  rw [List.map_cons, List.filter_cons]
  by_cases h : Text.trim value = ""
  · simp [h]
  · simp [h]

theorem type?_cons_of_blank {name value : String} {rest : Attributes} (h : Text.trim value = "") :
    type? ((name, value) :: rest) = type? rest := by
  rw [type?, present_cons, if_pos h, type?]

theorem type?_cons {name value : String} {rest : Attributes} (h : Text.trim value ≠ "") :
    type? ((name, value) :: rest) =
      (type? rest).or (if Reading.tellsType name then some (name, Text.trim value) else none) := by
  rw [type?, present_cons, if_neg h, List.filter_cons]
  by_cases ht : Reading.tellsType name
  · have hi : "type".toList <:+: name.toList.map Char.toLower := Text.occursIn_iff.1 ht
    simp only [hi, ht, decide_true, if_true, List.getLast?_cons, type?]
    generalize ((present rest).filter _).getLast? = last
    cases last <;> rfl
  · have hi : ¬ "type".toList <:+: name.toList.map Char.toLower := fun h => ht (Text.occursIn_iff.2 h)
    simp only [hi, ht, decide_false, type?, Bool.false_eq_true, if_false, Option.or_none]

end Attributes

namespace Reading

/-- Reading stands behind a start tag with the attributes `latest`, and the elements of `path` are
open inside the record. -/
def behind (path : List String) (latest : Attributes) (store : Store) : Reading :=
  ⟨path.reverse, latest.type?, store⟩

theorem foldl_addAttribute (r : Reading) (attributes : Attributes) :
    attributes.foldl addAttribute r =
      { r with
        typed := attributes.type?.or r.typed
        store := r.store.appendPairs (Node.attributeEntries r.opened.reverse attributes) } := by
  induction attributes generalizing r with
  | nil => rfl
  | cons first rest ih =>
    obtain ⟨name, value⟩ := first
    rw [List.foldl_cons, ih]
    by_cases h : Text.trim value = ""
    · simp only [addAttribute, h, if_true, Attributes.type?_cons_of_blank h,
        Node.attributeEntries, Attributes.present_cons]
    · simp only [addAttribute, h, if_false, Attributes.type?_cons h, Node.attributeEntries,
        Attributes.present_cons, List.map_cons, Store.appendPairs_cons, path]
      by_cases ht : tellsType name
      · simp [ht]
      · simp [ht]

theorem step_start (path : List String) (latest : Attributes) (store : Store) (name : String)
    (attributes : Attributes) :
    (behind path latest store).step (.start name attributes) =
      behind (path ++ [name]) attributes
        (store.appendPairs (Node.attributeEntries (path ++ [name]) attributes)) := by
  simp only [step, behind, foldl_addAttribute, List.reverse_cons, List.reverse_reverse,
    List.reverse_append, List.reverse_nil, List.nil_append, List.singleton_append, Option.or_none]

theorem step_text (path : List String) (latest : Attributes) (store : Store) (content : String) :
    (behind path latest store).step (.text content) =
      behind path latest (store.appendPairs (Node.textEntries path latest content)) := by
  simp only [step, addText, behind, Node.textEntries, Reading.path, List.reverse_reverse]
  by_cases h : Text.trim content = ""
  · simp [h]
  · simp only [h, if_false]
    cases latest.type? <;> rfl

theorem step_stop (path : List String) (latest : Attributes) (store : Store) (name : String) :
    (behind (path ++ [name]) latest store).step (.stop name) = behind path latest store := by
  simp [step, behind]

theorem endsAt_stop (path : List String) (latest : Attributes) (store : Store)
    (name record : String) : (behind (path ++ [name]) latest store).endsAt record (.stop name) = false := by
  simp [endsAt, behind]

theorem endsAt_start (r : Reading) (record name : String) (attributes : Attributes) :
    r.endsAt record (.start name attributes) = false := by
  simp [endsAt]

theorem endsAt_text (r : Reading) (record content : String) :
    r.endsAt record (.text content) = false := by
  simp [endsAt]

end Reading

/-! ## The tokens of a tree -/

theorem getLastD_append (tags others : List Attributes) (latest : Attributes) :
    (tags ++ others).getLastD latest = others.getLastD (tags.getLastD latest) := by
  rw [List.getLastD_eq_getLast?, List.getLast?_append, List.getLastD_eq_getLast?,
    List.getLastD_eq_getLast?, Option.getD_or]

theorem recordFrom_cons {name : String} {r : Reading} {t : Located} (tokens : List Located)
    (h : r.endsAt name t.token = false) :
    recordFrom name r (t :: tokens) = recordFrom name (r.step t.token) tokens := by
  rw [recordFrom, h]
  rfl

mutual

theorem recordFrom_node (record : String) (path : List String) (latest : Attributes)
    (store : Store) : ∀ (node : Node) {tokens : List Located} (rest : List Located),
      tokens.map Located.token = node.tokens →
      recordFrom record (.behind path latest store) (tokens ++ rest) =
        recordFrom record (.behind path (node.tags.getLastD latest)
          (store.appendPairs (node.entries path latest))) rest
  | .text content, tokens, rest, h => by
    obtain ⟨t, rfl, ht⟩ := List.map_eq_singleton_iff.1 h
    rw [List.singleton_append, recordFrom_cons, ht, Reading.step_text]
    · rfl
    · rw [ht]
      exact Reading.endsAt_text _ _ _
  | .element name attributes content, tokens, rest, h => by
    obtain ⟨start, others, rfl, hstart, h⟩ := List.map_eq_cons_iff.1 h
    obtain ⟨inner, ends, rfl, hinner, hends⟩ := List.map_eq_append_iff.1 h
    obtain ⟨stop, rfl, hstop⟩ := List.map_eq_singleton_iff.1 hends
    have hs : Reading.endsAt (.behind path latest store) record start.token = false := by
      rw [hstart]
      exact Reading.endsAt_start _ _ _ _
    rw [List.cons_append, recordFrom_cons _ hs, hstart, Reading.step_start, List.append_assoc,
      recordFrom_nodes record _ _ _ content _ hinner, List.singleton_append]
    -- The element itself is still open, so its end tag is not that of the record.
    have he := Reading.endsAt_stop path ((Node.tagsOf content).getLastD attributes)
      ((store.appendPairs (Node.attributeEntries (path ++ [name]) attributes)).appendPairs
        (Node.entriesOf (path ++ [name]) attributes content)) name record
    rw [recordFrom_cons _ (by rw [hstop]; exact he), hstop, Reading.step_stop, Node.tags,
      Node.entries, Store.appendPairs_append, List.getLastD_cons]

theorem recordFrom_nodes (record : String) (path : List String) (latest : Attributes)
    (store : Store) : ∀ (nodes : List Node) {tokens : List Located} (rest : List Located),
      tokens.map Located.token = Node.tokensOf nodes →
      recordFrom record (.behind path latest store) (tokens ++ rest) =
        recordFrom record (.behind path ((Node.tagsOf nodes).getLastD latest)
          (store.appendPairs (Node.entriesOf path latest nodes))) rest
  | [], tokens, rest, h => by
    rw [List.map_eq_nil_iff.1 h]
    rfl
  | node :: nodes, tokens, rest, h => by
    obtain ⟨first, others, rfl, hfirst, hothers⟩ := List.map_eq_append_iff.1 h
    rw [List.append_assoc, recordFrom_node record path latest store node _ hfirst,
      recordFrom_nodes record path _ _ nodes rest hothers, Node.tagsOf, Node.entriesOf,
      Store.appendPairs_append, getLastD_append]

end

/-- **A record is read as its tree says.** Reading stops behind the end tag of the record, and the
store holds the entries of the content, at each path in document order. -/
theorem record_tree (name : String) (content : List Node) (tokens rest : List Located)
    (h : tokens.map Located.token = Node.tokensOf content ++ [.stop name]) :
    record name (tokens ++ rest) = (Store.ofList (Node.entriesOf [] [] content), rest) ∧
      ∀ path, (record name (tokens ++ rest)).1.get path =
        ((Node.entriesOf [] [] content).filter fun entry => entry.1 = path).map (·.2) := by
  obtain ⟨inner, ends, rfl, hinner, hends⟩ := List.map_eq_append_iff.1 h
  obtain ⟨stop, rfl, hstop⟩ := List.map_eq_singleton_iff.1 hends
  have hrecord : record name (inner ++ [stop] ++ rest) =
      (Store.ofList (Node.entriesOf [] [] content), rest) := by
    rw [record, List.append_assoc,
      show Reading.empty = .behind [] [] Store.empty from rfl,
      recordFrom_nodes name [] [] _ content _ hinner, List.singleton_append, recordFrom, hstop]
    simp [Reading.endsAt, Reading.behind, Store.ofList_eq]
  refine ⟨hrecord, fun path => ?_⟩
  rw [hrecord]
  exact Store.get_ofList _ path

/-- An element named like the record does not end it, and its type counts up to the next start
tag, behind its end tag, too. -/
theorem record_tree_nested :
    let content : List Node := [
      .element "a" [("subType", " t "), ("n", " ")] [.text "inner"], .text " after ",
      .element "c" [] [], .text "plain"]
    let tokens : List Located := [
      ⟨.start "a" [("subType", " t "), ("n", " ")], 28⟩, ⟨.text "inner", 33⟩, ⟨.stop "a", 37⟩,
      ⟨.text " after ", 44⟩, ⟨.start "c" [], 48⟩, ⟨.stop "c", 48⟩, ⟨.text "plain", 53⟩,
      ⟨.stop "a", 57⟩]
    tokens.map Located.token = Node.tokensOf content ++ [.stop "a"] ∧
      record "a" (tokens ++ [⟨.stop "f", 61⟩]) =
        (Store.ofList [("a/@subType", "t"), ("a[@subType=t]", "inner"), ("a", "inner"),
          ("[@subType=t]", "after"), ("", "after"), ("", "plain")], [⟨.stop "f", 61⟩]) := by
  intro content tokens
  have htokens : tokens.map Located.token = Node.tokensOf content ++ [.stop "a"] := by decide
  have hentries : Node.entriesOf [] [] content =
      [("a/@subType", "t"), ("a[@subType=t]", "inner"), ("a", "inner"),
        ("[@subType=t]", "after"), ("", "after"), ("", "plain")] := by decide +kernel
  refine ⟨htokens, ?_⟩
  rw [(record_tree "a" content tokens [⟨.stop "f", 61⟩] htokens).1, hentries]

end Extractor.Xml
