/-!
# Searching for a marker

`breakAt?` finds the first place where a marker stands and gives the text on both sides of it.
The text, the marker and what was found always make up the whole (`breakAt?_eq_some`).
-/

namespace Extractor.Text

def breakAt? (marker : List Char) : List Char → Option (List Char × List Char)
  | [] => if marker.isEmpty then some ([], []) else none
  | c :: r =>
    match marker.isPrefixOf? (c :: r) with
    | some after => some ([], after)
    | none => (breakAt? marker r).map fun (before, after) => (c :: before, after)

theorem isPrefixOf?_cons_cons (x y : Char) (p s : List Char) :
    (x :: p).isPrefixOf? (y :: s) = if x == y then p.isPrefixOf? s else none := rfl

theorem isPrefixOf?_eq_some {p s t : List Char} (h : p.isPrefixOf? s = some t) : s = p ++ t := by
  induction p generalizing s with
  | nil => exact Option.some.inj h
  | cons x p ih =>
    cases s with
    | nil => exact nomatch h
    | cons y s =>
      rw [isPrefixOf?_cons_cons] at h
      split at h
      · next hxy => rw [ih h, beq_iff_eq.1 hxy, List.cons_append]
      · exact nomatch h

theorem breakAt?_eq_some {m s b a : List Char} (h : breakAt? m s = some (b, a)) :
    s = b ++ m ++ a := by
  induction s generalizing b with
  | nil =>
    simp only [breakAt?] at h
    split at h
    · next hm => simp_all
    · simp at h
  | cons c r ih =>
    simp only [breakAt?] at h
    split at h
    · next hp =>
      obtain ⟨rfl, rfl⟩ := Prod.mk.inj (Option.some.inj h)
      simpa using isPrefixOf?_eq_some hp
    · obtain ⟨⟨b', a'⟩, hb, heq⟩ := Option.map_eq_some_iff.1 h
      obtain ⟨rfl, rfl⟩ := Prod.mk.inj heq
      simp [ih hb]

theorem length_of_breakAt? {m s b a : List Char} (h : breakAt? m s = some (b, a)) :
    s.length = b.length + m.length + a.length := by
  simp [breakAt?_eq_some h, Nat.add_assoc]

/-- The marker stands somewhere in the text. -/
def occursIn (marker text : List Char) : Bool := (breakAt? marker text).isSome

end Extractor.Text
