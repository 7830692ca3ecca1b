import Mathlib.Data.List.Nodup
import Mathlib.Data.List.Perm.Subperm
import AbiBindings.Disk.FileTree
import AbiBindings.Proofs.Outcome

/-!
What changes of a tree leave alone. A path leads to the same place as long as directories are only
added, whatever happens to files. The name of a new temporary file is one that nothing has, since a
tree cannot hold as many things as there are names to try.
-/

namespace AbiBindings.FileTree

open Outcome

variable {tree tree' : FileTree} {path : Path} {place : Place}

theorem file?_eq_none : tree.file? place = none ↔ ∀ file ∈ tree.files, file.1 ≠ place := by
  rw [file?, List.lookup_eq_none_iff]
  simp only [bne_iff_ne, ne_comm]

theorem file?_eraseFile (other : Place) :
    (tree.eraseFile place).file? other = if other = place then none else tree.file? other := by
  simp only [file?, eraseFile]
  induction tree.files with
  | nil => simp
  | cons file rest ih =>
    rw [List.filter_cons, List.lookup_cons]
    by_cases hfile : file.1 = place
    · rw [if_neg (by simpa using hfile), ih]
      by_cases hother : other = place
      · rw [if_pos hother, if_pos hother]
      · rw [if_neg hother, if_neg hother, beq_eq_false_iff_ne.mpr (hfile ▸ hother)]
    · rw [if_pos (by simpa using hfile), List.lookup_cons, ih]
      by_cases hother : other = file.1
      · have hplace : other ≠ place := fun h => hfile (hother.symm.trans h)
        rw [beq_iff_eq.mpr hother, if_neg hplace, if_neg hplace]
      · rw [beq_eq_false_iff_ne.mpr hother]

theorem file?_putFile (other : Place) (bytes : List UInt8) :
    (tree.putFile place bytes).file? other =
      if other = place then some bytes else tree.file? other := by
  have herase : (tree.eraseFile place).file? other =
      if other = place then none else tree.file? other := file?_eraseFile other
  unfold file? at herase ⊢
  rw [putFile, List.lookup_append, herase]
  split
  · next hother => simp [hother]
  · next hother =>
    rw [List.lookup_cons, beq_eq_false_iff_ne.mpr hother]
    simp

theorem eraseFile_of_file?_eq_none (h : tree.file? place = none) : tree.eraseFile place = tree := by
  have hfiles : tree.files.filter (fun file => file.1 ≠ place) = tree.files := by
    rw [List.filter_eq_self]
    intro file hfile
    exact decide_eq_true (file?_eq_none.mp h file hfile)
  rw [eraseFile, hfiles]

theorem eraseFile_putFile (bytes : List UInt8) :
    (tree.putFile place bytes).eraseFile place = tree.eraseFile place := by
  simp [putFile, eraseFile]

theorem putFile_putFile (bytes bytes' : List UInt8) :
    (tree.putFile place bytes).putFile place bytes' = tree.putFile place bytes' := by
  rw [putFile, eraseFile_putFile, putFile]

structure ExtendedBy (tree tree' : FileTree) : Prop where
  working : tree'.working = tree.working
  directories : tree.directories ⊆ tree'.directories

namespace ExtendedBy

theorem refl (tree : FileTree) : tree.ExtendedBy tree := ⟨rfl, List.Subset.refl _⟩

theorem isDirectoryAt (h : tree.ExtendedBy tree') (hplace : tree.isDirectoryAt place = true) :
    tree'.isDirectoryAt place = true := by
  simp only [FileTree.isDirectoryAt, Bool.or_eq_true, decide_eq_true_eq,
    List.contains_iff_mem] at hplace ⊢
  exact hplace.imp_right fun hmem => h.directories hmem

theorem follow (h : tree.ExtendedBy tree') {name : Text} {next : Place}
    (hfollow : tree.follow place name = .ok next) : tree'.follow place name = .ok next := by
  unfold FileTree.follow at hfollow ⊢
  split at hfollow
  · next hplace => rwa [if_pos (h.isDirectoryAt hplace)]
  · split at hfollow <;> cases hfollow

theorem foldlM_follow (h : tree.ExtendedBy tree') {names : List Text} {start : Place}
    (hfollow : names.foldlM tree.follow start = .ok place) :
    names.foldlM tree'.follow start = .ok place := by
  induction names generalizing start with
  | nil => exact hfollow
  | cons name rest ih =>
    rw [List.foldlM_cons] at hfollow ⊢
    cases hnext : tree.follow start name with
    | error obstacle => rw [hnext] at hfollow; cases hfollow
    | ok next =>
      rw [hnext] at hfollow
      rw [h.follow hnext]
      exact ih hfollow

/-- A path that leads to a place goes on to lead there. -/
theorem locate (h : tree.ExtendedBy tree') (hlocate : tree.locate path = .ok place) :
    tree'.locate path = .ok place := by
  unfold FileTree.locate at hlocate ⊢
  rw [h.working]
  split
  · next hlong => rw [if_pos hlong] at hlocate; cases hlocate
  · next hlong =>
    rw [if_neg hlong] at hlocate
    exact h.foldlM_follow hlocate

end ExtendedBy

theorem locate_putFile {bytes : List UInt8} {other : Place} :
    (tree.putFile place bytes).locate path = .ok other ↔ tree.locate path = .ok other :=
  ⟨ExtendedBy.locate ⟨rfl, List.Subset.refl _⟩, ExtendedBy.locate ⟨rfl, List.Subset.refl _⟩⟩

/-- A name in a directory leads to the place of that name in it. -/
theorem eq_of_locate_child {directory : Path} {folder : Place} {name : Text}
    (hfolder : tree.locate directory = .ok folder) (hdirectory : tree.isDirectoryAt folder = true)
    (hname : name ≠ Path.up) (h : tree.locate (directory.child name) = .ok place) :
    place = folder ++ [name] := by
  unfold locate at hfolder h
  split at hfolder
  · cases hfolder
  split at h
  · cases h
  rw [Path.child, List.foldlM_append, hfolder, ok_bind, List.foldlM_cons] at h
  rw [follow, if_pos hdirectory, if_neg hname] at h
  split at h
  · cases h
  · exact (Except.ok.inj h).symm

section

variable {directory : Path} {folder : Place} {start : Text}

theorem length_temporaryName (start : Text) (more : Nat) :
    (temporaryName start more).length = start.length + more + 5 := by
  have hending : Disk.temporaryEnding.length = 4 := rfl
  simp only [temporaryName, List.length_append, List.length_replicate, hending]
  omega

theorem temporaryName_injective (start : Text) : Function.Injective (temporaryName start) := by
  intro more more' h
  have hlength := congrArg List.length h
  rw [length_temporaryName, length_temporaryName] at hlength
  omega

theorem temporaryName_ne_up (start : Text) (more : Nat) : temporaryName start more ≠ Path.up := by
  intro h
  have hlength := congrArg List.length h
  have hup : Path.up.length = 2 := rfl
  rw [length_temporaryName, hup] at hlength
  omega

theorem holds_iff {name : Text} : tree.holds (folder ++ [name]) = true ↔
    folder ++ [name] ∈ tree.directories ++ tree.files.map Prod.fst := by
  have hfile : (tree.file? (folder ++ [name])).isSome = true ↔
      folder ++ [name] ∈ tree.files.map Prod.fst := by
    rw [Option.isSome_iff_ne_none, ne_eq, file?_eq_none]
    simp
  simp [holds, isDirectoryAt, hfile]

/-- Only a name that nothing has is taken before all names are tried. -/
theorem holds_freeName {steps more : Nat}
    (h : tree.holds (folder ++ [tree.freeName folder start steps more]) = true) :
    ∀ i ≤ steps, tree.holds (folder ++ [temporaryName start (more + i)]) = true := by
  induction steps generalizing more with
  | zero =>
    intro i hi
    obtain rfl : i = 0 := by omega
    exact h
  | succ steps ih =>
    rw [freeName] at h
    split at h
    · next hfirst =>
      intro i hi
      cases i with
      | zero => exact hfirst
      | succ i =>
        have hrest := ih h i (by omega)
        rwa [Nat.add_right_comm, Nat.add_assoc] at hrest
    · next hfirst => exact absurd h hfirst

theorem exists_freeName (tree : FileTree) (folder : Place) (start : Text) (steps more : Nat) :
    ∃ i, tree.freeName folder start steps more = temporaryName start i := by
  induction steps generalizing more with
  | zero => exact ⟨more, rfl⟩
  | succ steps ih =>
    rw [freeName]
    split
    · exact ih (more + 1)
    · exact ⟨more, rfl⟩

/-- Nothing has the name of a new temporary file. -/
theorem holds_newName (tree : FileTree) (folder : Place) (start : Text) :
    tree.holds (folder ++ [tree.newName folder start]) = false := by
  rw [Bool.eq_false_iff]
  intro hheld
  -- Distinct numbers give distinct names, so a tree with all of them in it would be too small.
  let tried := (List.range (tree.files.length + tree.directories.length + 1)).map
    fun i => folder ++ [temporaryName start i]
  have hnodup : tried.Nodup := by
    apply List.nodup_range.map
    intro i j h
    exact temporaryName_injective start (List.singleton_inj.mp (List.append_cancel_left h))
  have hsubset : tried ⊆ tree.directories ++ tree.files.map Prod.fst := by
    intro place hplace
    obtain ⟨i, hi, rfl⟩ := List.mem_map.mp hplace
    have hi := List.mem_range.mp hi
    have htaken := holds_freeName hheld i (by omega)
    rw [Nat.zero_add] at htaken
    exact holds_iff.mp htaken
  have hlength := (hnodup.subperm hsubset).length_le
  simp only [tried, List.length_map, List.length_range, List.length_append] at hlength
  omega

/-- A temporary file is new: it stands where no file was. -/
theorem makeTemporary_eq_ok (h : tree.makeTemporary directory start = .ok (path, tree')) :
    ∃ folder name, tree.locate directory = .ok folder ∧
      tree.locate path = .ok (folder ++ [name]) ∧ tree.file? (folder ++ [name]) = none ∧
      tree' = tree.putFile (folder ++ [name]) [] := by
  unfold makeTemporary at h
  split at h
  · cases h
  next folder hfolder =>
  split at h
  · cases h
  next hdirectory =>
  split at h
  · cases h
  dsimp only at h
  split at h
  · cases h
  next newPlace hplace =>
  cases h
  obtain ⟨i, hi⟩ := exists_freeName tree folder start
    (tree.files.length + tree.directories.length) 0
  have hup : tree.newName folder start ≠ Path.up := by
    rw [newName, hi]
    exact temporaryName_ne_up start i
  obtain rfl := eq_of_locate_child hfolder (by simpa using hdirectory) hup hplace
  have hfree := holds_newName tree folder start
  rw [holds, Bool.or_eq_false_iff, Option.isSome_eq_false_iff, Option.isNone_iff_eq_none] at hfree
  exact ⟨folder, tree.newName folder start, hfolder, hplace, hfree.2, rfl⟩

/-- A file that takes the place of another leaves its own. -/
theorem replace_eq_ok {source target : Path} {bytes : List UInt8}
    (hsource : tree.locate source = .ok place) (hbytes : tree.file? place = some bytes)
    (h : tree.replace source target = .ok tree') :
    ∃ goal, tree.locate target = .ok goal ∧ tree' = (tree.eraseFile place).putFile goal bytes := by
  unfold replace at h
  rw [hsource] at h
  split at h
  · next heq => cases heq
  · cases h
  next from' goal heq hgoal =>
  cases heq
  rw [hbytes] at h
  dsimp only at h
  split at h
  · cases h
  split at h
  · cases h
  cases h
  exact ⟨goal, hgoal, rfl⟩

end

end AbiBindings.FileTree
