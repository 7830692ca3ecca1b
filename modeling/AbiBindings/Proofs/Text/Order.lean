import AbiBindings.Text.Basic
import Mathlib.Data.List.Pairwise

/-!
The order of texts, and sorting by it. Any two texts are in order one way or the other, so inserting
entries one by one leaves them sorted; and the distinct texts of a list come out increasing.
-/

namespace AbiBindings.Text

theorem le_cons_cons {a b : CodePoint} {s t : Text} :
    le (a :: s) (b :: t) = true ↔ a.val < b.val ∨ a.val = b.val ∧ le s t = true := by
  simp [le]

theorem le_trans {s t u : Text} (hst : le s t = true) (htu : le t u = true) :
    le s u = true := by
  induction s generalizing t u with
  | nil => rfl
  | cons a s ih =>
    cases t with
    | nil => cases hst
    | cons b t =>
      cases u with
      | nil => cases htu
      | cons c u =>
        rw [le_cons_cons] at hst htu ⊢
        rcases hst with hlt | ⟨heq, hst⟩
        · exact .inl (by omega)
        rcases htu with hlt | ⟨heq', htu⟩
        · exact .inl (by omega)
        · exact .inr ⟨heq.trans heq', ih hst htu⟩

theorem le_total (s t : Text) : le s t = true ∨ le t s = true := by
  induction s generalizing t with
  | nil => exact .inl rfl
  | cons a s ih =>
    cases t with
    | nil => exact .inr rfl
    | cons b t =>
      rw [le_cons_cons, le_cons_cons]
      rcases Nat.lt_trichotomy a.val b.val with hlt | heq | hlt
      · exact .inl (.inl hlt)
      · rcases ih t with hle | hle
        · exact .inl (.inr ⟨heq, hle⟩)
        · exact .inr (.inr ⟨heq.symm, hle⟩)
      · exact .inr (.inl hlt)

/-- Each text stands in front of all greater ones, and none stands there twice. -/
def Increasing (texts : List Text) : Prop := texts.Pairwise fun s t => le s t = true ∧ s ≠ t

instance (texts : List Text) : Decidable (Increasing texts) :=
  inferInstanceAs (Decidable (texts.Pairwise _))

section

variable {α β : Type} {key : α → Text}

theorem perm_insertByKey (key : α → Text) (x : α) (entries : List α) :
    (insertByKey key x entries).Perm (x :: entries) := by
  induction entries with
  | nil => exact List.Perm.refl _
  | cons y rest ih =>
    rw [insertByKey]
    split
    · exact List.Perm.refl _
    · exact (ih.cons y).trans (List.Perm.swap x y rest)

theorem perm_sortByKey (key : α → Text) (entries : List α) :
    (sortByKey key entries).Perm entries := by
  induction entries with
  | nil => exact List.Perm.refl _
  | cons x rest ih => exact (perm_insertByKey key x _).trans (ih.cons x)

theorem insertByKey_map {key' : β → Text} {f : α → β} (hf : ∀ x, key' (f x) = key x) (x : α)
    (entries : List α) :
    insertByKey key' (f x) (entries.map f) = (insertByKey key x entries).map f := by
  induction entries with
  | nil => rfl
  | cons y rest ih =>
    rw [List.map_cons, insertByKey, insertByKey, hf, hf]
    split
    · rfl
    · rw [ih, List.map_cons]

/-- What keeps the keys may be done before or after sorting. -/
theorem sortByKey_map {key' : β → Text} {f : α → β} (hf : ∀ x, key' (f x) = key x)
    (entries : List α) : sortByKey key' (entries.map f) = (sortByKey key entries).map f := by
  induction entries with
  | nil => rfl
  | cons x rest ih =>
    rw [List.map_cons, sortByKey, List.foldr_cons, ← sortByKey, ih, insertByKey_map hf]
    rfl

theorem mem_sortByKey {x : α} {entries : List α} : x ∈ sortByKey key entries ↔ x ∈ entries :=
  (perm_sortByKey key entries).mem_iff

theorem pairwise_insertByKey {x : α} {entries : List α}
    (h : entries.Pairwise fun y z => le (key y) (key z) = true) :
    (insertByKey key x entries).Pairwise fun y z => le (key y) (key z) = true := by
  induction entries with
  | nil => exact List.pairwise_singleton _ x
  | cons y rest ih =>
    obtain ⟨hfirst, hrest⟩ := List.pairwise_cons.mp h
    rw [insertByKey]
    split
    · next hle =>
      refine List.pairwise_cons.mpr ⟨?_, h⟩
      rw [List.forall_mem_cons]
      exact ⟨hle, fun z hz => le_trans hle (hfirst z hz)⟩
    · next hnot =>
      have hle : le (key y) (key x) = true := (le_total _ _).resolve_left hnot
      refine List.pairwise_cons.mpr ⟨?_, ih hrest⟩
      intro z hz
      rcases List.mem_cons.mp ((perm_insertByKey key x rest).mem_iff.mp hz) with rfl | hz
      · exact hle
      · exact hfirst z hz

theorem pairwise_sortByKey (key : α → Text) (entries : List α) :
    (sortByKey key entries).Pairwise fun x y => le (key x) (key y) = true := by
  induction entries with
  | nil => exact List.Pairwise.nil
  | cons x rest ih => exact pairwise_insertByKey ih

end

theorem le_antisymm {s t : Text} (hst : le s t = true) (hts : le t s = true) : s = t := by
  induction s generalizing t with
  | nil =>
    cases t with
    | nil => rfl
    | cons b t => cases hts
  | cons a s ih =>
    cases t with
    | nil => cases hst
    | cons b t =>
      rw [le_cons_cons] at hst hts
      rcases hst with hlt | ⟨hval, hst⟩
      · omega
      rcases hts with hlt | ⟨-, hts⟩
      · omega
      rw [CodePoint.ext hval, ih hst hts]

theorem mem_sortDistinct {t : Text} {texts : List Text} : t ∈ sortDistinct texts ↔ t ∈ texts := by
  rw [sortDistinct, mem_sortByKey, List.mem_eraseDups]

theorem nodup_eraseDups (texts : List Text) : texts.eraseDups.Nodup := by
  match texts with
  | [] => exact List.nodup_nil
  | t :: rest =>
    rw [List.eraseDups_cons, List.nodup_cons, List.mem_eraseDups]
    exact ⟨by simp, nodup_eraseDups (rest.filter fun s => !s == t)⟩
termination_by texts.length
decreasing_by exact Nat.lt_succ_of_le (List.length_filter_le _ _)

theorem increasing_sortDistinct (texts : List Text) : Increasing (sortDistinct texts) := by
  have hnodup : (sortDistinct texts).Nodup :=
    (perm_sortByKey id texts.eraseDups).nodup_iff.mpr (nodup_eraseDups texts)
  exact (pairwise_sortByKey id texts.eraseDups).and hnodup

/-- Sorting without repetitions depends only on which texts there are. -/
theorem sortDistinct_congr {texts texts' : List Text} (h : ∀ t, t ∈ texts ↔ t ∈ texts') :
    sortDistinct texts = sortDistinct texts' := by
  have hsame (t : Text) : t ∈ sortDistinct texts ↔ t ∈ sortDistinct texts' := by
    rw [mem_sortDistinct, mem_sortDistinct, h]
  have hsorted := increasing_sortDistinct texts
  have hsorted' := increasing_sortDistinct texts'
  have hperm : (sortDistinct texts).Perm (sortDistinct texts') :=
    (List.perm_ext_iff_of_nodup (hsorted.imp And.right) (hsorted'.imp And.right)).mpr hsame
  exact hperm.eq_of_pairwise (fun s t _ _ hst hts => le_antisymm hst.1 hts.1) hsorted hsorted'

end AbiBindings.Text
