import Mathlib
import AbiBindings.Proofs.Disk.Tree

/-!
What saving a text does to the files of a drive, whatever the drive refuses. Until the last step the
tree is the old one with more directories and one new file, the temporary one; a refused step takes
that file away, and the last step makes it the target. Only a text without a UTF-8 form leaves it
behind.
-/

namespace AbiBindings

open Std.Do

set_option mvcgen.warning false

namespace FileTree

variable {tree tree' next : FileTree} {path target temporary : Path} {bytes : List UInt8}

/-- Two trees have the same files, and the second may have more directories. -/
structure SameFiles (tree tree' : FileTree) : Prop extends tree.ExtendedBy tree' where
  files : tree'.files = tree.files

theorem SameFiles.refl (tree : FileTree) : tree.SameFiles tree := ⟨.refl tree, rfl⟩

theorem SameFiles.file? (h : tree.SameFiles tree') (place : Place) :
    tree'.file? place = tree.file? place := by
  rw [FileTree.file?, h.files, FileTree.file?]

theorem SameFiles.makeDirectory (h : tree.SameFiles tree')
    (hmake : tree'.makeDirectory path = .ok next) : tree.SameFiles next := by
  unfold FileTree.makeDirectory at hmake
  split at hmake
  · cases hmake
  split at hmake
  · cases hmake
  cases hmake
  exact ⟨⟨h.working, List.subset_append_of_subset_left _ h.directories⟩, h.files⟩

/-- A tree with more directories and one more file: a temporary one for a target, in the target's
directory and under a name that no file had. -/
inductive Staged (tree : FileTree) (target temporary : Path) (bytes : List UInt8) :
    FileTree → Prop where
  | intro {made : FileTree} {folder : Place} {name : Text} (same : tree.SameFiles made)
      (folder_eq : made.locate target.parent = .ok folder)
      (locate : made.locate temporary = .ok (folder ++ [name]))
      (free : made.file? (folder ++ [name]) = none) :
      Staged tree target temporary bytes (made.putFile (folder ++ [name]) bytes)

namespace Staged

theorem writeFile (h : tree.Staged target temporary bytes tree') (bytes' : List UInt8) :
    ∃ next, tree'.writeFile temporary bytes' = .ok next ∧
      tree.Staged target temporary bytes' next := by
  obtain ⟨same, hfolder, hlocate, hfree⟩ := h
  rw [FileTree.writeFile, locate_putFile.mpr hlocate]
  refine ⟨_, rfl, ?_⟩
  rw [putFile_putFile]
  exact ⟨same, hfolder, hlocate, hfree⟩

theorem remove (h : tree.Staged target temporary bytes tree') :
    tree.SameFiles (tree'.remove temporary) := by
  obtain ⟨same, -, hlocate, hfree⟩ := h
  rw [FileTree.remove, locate_putFile.mpr hlocate]
  dsimp only
  rw [eraseFile_putFile, eraseFile_of_file?_eq_none hfree]
  exact same

end Staged

end FileTree

/-- What a save does to a tree, for each way in which it can end. -/
inductive Saved (target : Path) (text : Text) (tree : FileTree) :
    Except Fault Path → FileTree → Prop where
  /-- The target holds the text in UTF-8, and all other files are as they were. -/
  | done {tree' : FileTree} {bytes : List UInt8} {place : Place}
      (extended : tree.ExtendedBy tree') (encode : text.encode = .ok bytes)
      (locate : tree'.locate target = .ok place)
      (files : ∀ other, tree'.file? other =
        if other = place then some bytes else tree.file? other) :
      Saved target text tree (.ok target) tree'
  /-- A step is refused, and all files are as they were. -/
  | refused {tree' : FileTree} {reason : IoFault} (same : tree.SameFiles tree') :
      Saved target text tree (.error (.io (some target.toText) reason)) tree'
  /-- The target is no path, and all files are as they were. -/
  | noPath {tree' : FileTree} {fault : Fault} (same : tree.SameFiles tree')
      (check : FileName.check target.parent.toText = .error fault ∨
        FileName.check target.name = .error fault) :
      Saved target text tree (.error fault) tree'
  /-- The text has no UTF-8 form, and a new empty file stands beside the target. -/
  | unencodable {tree' : FileTree} {fault : Text.Unencodable} {folder : Place} {name : Text}
      (extended : tree.ExtendedBy tree') (encode : text.encode = .error fault)
      (locate : tree'.locate target.parent = .ok folder)
      (free : tree.file? (folder ++ [name]) = none)
      (files : ∀ other, tree'.file? other =
        if other = folder ++ [name] then some [] else tree.file? other) :
      Saved target text tree (.error (.unencodable fault)) tree'

namespace FileTree.Staged

variable {tree tree' next : FileTree} {target temporary : Path} {text : Text} {bytes : List UInt8}

theorem replace (h : tree.Staged target temporary bytes tree') (hencode : text.encode = .ok bytes)
    (hreplace : tree'.replace temporary target = .ok next) :
    Saved target text tree (.ok target) next := by
  obtain ⟨same, -, hlocate, hfree⟩ := h
  obtain ⟨goal, hgoal, rfl⟩ := replace_eq_ok (locate_putFile.mpr hlocate)
    ((file?_putFile _ bytes).trans (if_pos rfl)) hreplace
  rw [eraseFile_putFile, eraseFile_of_file?_eq_none hfree]
  refine .done ⟨same.working, same.directories⟩ hencode
    (locate_putFile.mpr (locate_putFile.mp hgoal)) ?_
  intro other
  rw [file?_putFile, same.file?]

theorem unencodable (h : tree.Staged target temporary [] tree') {fault : Text.Unencodable}
    (hencode : text.encode = .error fault) :
    Saved target text tree (.error (.unencodable fault)) tree' := by
  obtain ⟨same, hfolder, -, hfree⟩ := h
  refine .unencodable ⟨same.working, same.directories⟩ hencode (locate_putFile.mpr hfolder)
    ((same.file? _).symm.trans hfree) ?_
  intro other
  rw [file?_putFile, same.file?]

end FileTree.Staged

/-- A change is carried out or leaves the tree as it was. -/
theorem Drive.change_spec {α : Type} {what : Change}
    {act : FileTree → Except IoFault (α × FileTree)} {before : FileTree → Prop}
    (after : Except IoFault α → FileTree → Prop)
    (hrefused : ∀ tree reason, before tree → after (.error reason) tree)
    (hdone : ∀ tree answer next, before tree → act tree = .ok (answer, next) →
      after (.ok answer) next) :
    ⦃fun drive => ⌜before drive.tree⌝⦄
    change what act
    ⦃⇓ answer drive => ⌜after answer drive.tree⌝⦄ := by
  intro drive h
  change after (change what act drive).1 (change what act drive).2.tree
  unfold change
  split
  · exact hrefused _ _ h
  · split
    · exact hrefused _ _ h
    · next hact => exact hdone _ _ _ h hact

namespace Disk

variable (tree : FileTree) (target temporary : Path) (text : Text) (bytes : List UInt8)

theorem isDirectory_spec (path : Path) :
    ⦃fun drive => ⌜tree.SameFiles drive.tree⌝⦄
    (isDirectory path : StateM Drive Bool)
    ⦃⇓ _ drive => ⌜tree.SameFiles drive.tree⌝⦄ := by
  intro drive h
  exact h

theorem makeDirectory_spec (path : Path) :
    ⦃fun drive => ⌜tree.SameFiles drive.tree⌝⦄
    (makeDirectory path : StateM Drive (Except IoFault Unit))
    ⦃⇓ _ drive => ⌜tree.SameFiles drive.tree⌝⦄ := by
  apply Drive.change_spec fun _ tree' => tree.SameFiles tree'
  · intro _ _ h
    exact h
  · intro _ _ _ h hact
    obtain ⟨_, hmake, heq⟩ := Outcome.map_eq_ok.mp hact
    cases heq
    exact h.makeDirectory hmake

theorem makeTemporary_spec (start : Text) :
    ⦃fun drive => ⌜tree.SameFiles drive.tree⌝⦄
    (makeTemporary target.parent start : StateM Drive (Except IoFault Path))
    ⦃⇓ answer drive => ⌜match answer with
      | .error _ => tree.SameFiles drive.tree
      | .ok temporary => tree.Staged target temporary [] drive.tree⌝⦄ := by
  apply Drive.change_spec fun answer tree' => match answer with
    | .error _ => tree.SameFiles tree'
    | .ok temporary => tree.Staged target temporary [] tree'
  · intro _ _ h
    exact h
  · intro _ _ _ h hact
    obtain ⟨folder, name, hfolder, hlocate, hfree, rfl⟩ := FileTree.makeTemporary_eq_ok hact
    exact ⟨h, hfolder, hlocate, hfree⟩

/-- A refused write leaves some bytes in the file. -/
theorem writeFile_spec :
    ⦃fun drive => ⌜tree.Staged target temporary [] drive.tree⌝⦄
    (writeFile temporary bytes : StateM Drive (Except IoFault Unit))
    ⦃⇓ answer drive => ⌜match answer with
      | .error _ => ∃ part, tree.Staged target temporary part drive.tree
      | .ok _ => tree.Staged target temporary bytes drive.tree⌝⦄ := by
  -- A write is no `change`, since a refused one still changes the tree.
  intro drive h
  change match (Drive.writeFile temporary bytes drive).1 with
    | .error _ => ∃ part,
        tree.Staged target temporary part (Drive.writeFile temporary bytes drive).2.tree
    | .ok _ => tree.Staged target temporary bytes (Drive.writeFile temporary bytes drive).2.tree
  unfold Drive.writeFile
  cases drive.refusal drive.requests (.writeFile temporary) with
  | some reason =>
    obtain ⟨next, hwrite, hnext⟩ := h.writeFile (bytes.take (drive.written drive.requests))
    simp only [hwrite]
    exact ⟨_, hnext⟩
  | none =>
    obtain ⟨next, hwrite, hnext⟩ := h.writeFile bytes
    simp only [hwrite]
    exact hnext

theorem remove_spec :
    ⦃fun drive => ⌜∃ part, tree.Staged target temporary part drive.tree⌝⦄
    (remove temporary : StateM Drive Unit)
    ⦃⇓ _ drive => ⌜tree.SameFiles drive.tree⌝⦄ := by
  rintro drive ⟨part, h⟩
  exact h.remove

theorem replace_spec (hencode : text.encode = .ok bytes) :
    ⦃fun drive => ⌜tree.Staged target temporary bytes drive.tree⌝⦄
    (replace temporary target : StateM Drive (Except IoFault Unit))
    ⦃⇓ answer drive => ⌜match answer with
      | .error _ => ∃ part, tree.Staged target temporary part drive.tree
      | .ok _ => Saved target text tree (.ok target) drive.tree⌝⦄ := by
  apply Drive.change_spec fun (answer : Except IoFault Unit) tree' => match answer with
    | .error _ => ∃ part, tree.Staged target temporary part tree'
    | .ok _ => Saved target text tree (.ok target) tree'
  · intro _ _ h
    exact ⟨bytes, h⟩
  · intro _ _ _ h hact
    obtain ⟨_, hreplace, heq⟩ := Outcome.map_eq_ok.mp hact
    cases heq
    exact h.replace hencode hreplace

theorem ensureDirectory_spec (path : Path) :
    ⦃fun drive => ⌜tree.SameFiles drive.tree⌝⦄
    (ensureDirectory path : StateM Drive (Except IoFault Unit))
    ⦃⇓ _ drive => ⌜tree.SameFiles drive.tree⌝⦄ := by
  have hmake := makeDirectory_spec tree
  have hlook := isDirectory_spec tree
  mvcgen [ensureDirectory, unlessDirectory, hmake, hlook]

theorem ensureDirectoriesReversed_spec (root : Text) (parts : List Text) :
    ⦃fun drive => ⌜tree.SameFiles drive.tree⌝⦄
    (ensureDirectoriesReversed root parts : StateM Drive (Except IoFault Unit))
    ⦃⇓ _ drive => ⌜tree.SameFiles drive.tree⌝⦄ := by
  have hmake := makeDirectory_spec tree
  have hlook := isDirectory_spec tree
  have hensure := ensureDirectory_spec tree
  induction parts with
  | nil => exact hensure _
  | cons part before ih =>
    mvcgen [ensureDirectoriesReversed, unlessDirectory, hmake, hlook, hensure, ih]

/-- Up to the temporary file nothing but directories is added, and a failure leaves it at that. -/
theorem prepare_spec :
    ⦃fun drive => ⌜tree.SameFiles drive.tree⌝⦄
    (prepare target : StateM Drive (Except Fault Path))
    ⦃⇓ answer drive => ⌜match answer with
      | .error fault => Saved target text tree (.error fault) drive.tree
      | .ok temporary => tree.Staged target temporary [] drive.tree⌝⦄ := by
  have hensure := ensureDirectoriesReversed_spec tree
  have hmake := makeTemporary_spec tree target
  mvcgen [prepare, ensureDirectories, hensure, hmake]
  -- The ways to stop: the path above, a directory, the name, the temporary file.
  case vc1 hcheck _ h => exact .noPath h (.inl hcheck)
  case vc3 h => exact .refused h
  case vc4 hcheck _ h => exact .noPath h (.inr hcheck)
  case vc6 answer _ h =>
    cases answer with
    | error reason => exact .refused h
    | ok temporary => exact h

theorem commit_spec (hencode : text.encode = .ok bytes) :
    ⦃fun drive => ⌜tree.Staged target temporary [] drive.tree⌝⦄
    (commit temporary target bytes : StateM Drive (Except IoFault Unit))
    ⦃⇓ answer drive => ⌜match answer with
      | .error _ => tree.SameFiles drive.tree
      | .ok _ => Saved target text tree (.ok target) drive.tree⌝⦄ := by
  have hwrite := writeFile_spec tree target temporary bytes
  have hremove := remove_spec tree target temporary
  have hreplace := replace_spec tree target temporary text bytes hencode
  mvcgen [commit, hwrite, hremove, hreplace]

theorem save_spec :
    ⦃fun drive => ⌜tree.SameFiles drive.tree⌝⦄
    (save target text : StateM Drive (Except Fault Unit))
    ⦃⇓ answer drive => ⌜Saved target text tree (answer.map fun _ => target) drive.tree⌝⦄ := by
  have hprepare := prepare_spec tree target text
  have hcommit := commit_spec tree target
  mvcgen [save, hprepare, hcommit]
  case vc3 hencode _ h => exact h.unencodable hencode
  case vc7 answer _ h =>
    cases answer with
    | error reason => exact .refused h
    | ok _ => exact h

end Disk

end AbiBindings
