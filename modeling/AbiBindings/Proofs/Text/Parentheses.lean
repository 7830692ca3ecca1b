import AbiBindings.Text.Basic
import Mathlib.Data.List.Basic

/-!
Matching parentheses. In a closed text every parenthesis has its partner, so the parenthesis that
belongs to the last one of a bracketed text can be found from the end, whatever stands in front.
-/

namespace AbiBindings.Text

/-- Every parenthesis of the text has its partner in it: there are as many of one kind as of the
other, and seen from the end none is opened that is not closed. -/
structure Closed (t : Text) : Prop where
  count_eq : t.count (CodePoint.ofChar '(') = t.count (CodePoint.ofChar ')')
  count_le : ∀ s, s <:+ t → s.count (CodePoint.ofChar '(') ≤ s.count (CodePoint.ofChar ')')

theorem closed_of_not_mem {t : Text}
    (h : CodePoint.ofChar '(' ∉ t) (h' : CodePoint.ofChar ')' ∉ t) : Closed t where
  count_eq := by rw [List.count_eq_zero.mpr h, List.count_eq_zero.mpr h']
  count_le := by
    intro s hs
    have hnone : CodePoint.ofChar '(' ∉ s := fun hmem => h (hs.subset hmem)
    rw [List.count_eq_zero.mpr hnone]
    exact Nat.zero_le _

theorem closed_nil : Closed [] := closed_of_not_mem List.not_mem_nil List.not_mem_nil

theorem Closed.append {s t : Text} (hs : Closed s) (ht : Closed t) : Closed (s ++ t) where
  count_eq := by rw [List.count_append, List.count_append, hs.count_eq, ht.count_eq]
  count_le := by
    intro u hu
    obtain ⟨w, hw⟩ := hu
    rcases List.append_eq_append_iff.mp hw with ⟨v, hs', rfl⟩ | ⟨v, -, ht'⟩
    · have hle := hs.count_le v ⟨w, hs'.symm⟩
      have heq := ht.count_eq
      simp only [List.count_append]
      omega
    · exact ht.count_le u ⟨v, ht'.symm⟩

/-- A suffix that starts at a parenthesis before a closed text opens more than it closes, so it
is not closed and not part of a closed text. -/
theorem Closed.not_suffix {s t : Text} (hs : Closed s) (ht : Closed t) :
    ¬ CodePoint.ofChar '(' :: s <:+ t := by
  intro hsuffix
  have hle := ht.count_le _ hsuffix
  have heq := hs.count_eq
  have hopen : CodePoint.ofChar '(' ≠ CodePoint.ofChar ')' := by decide
  rw [List.count_cons_self, List.count_cons_of_ne hopen] at hle
  omega

theorem count_opening : List.count (CodePoint.ofChar '(') "(" = 1 ∧
    List.count (CodePoint.ofChar '(') ")" = 0 := by decide

theorem count_closing : List.count (CodePoint.ofChar ')') "(" = 0 ∧
    List.count (CodePoint.ofChar ')') ")" = 1 := by decide

/-- Between parentheses a closed text is closed. -/
theorem Closed.parenthesize {t : Text} (h : Closed t) : Closed ("(" ++ t ++ ")") where
  count_eq := by
    have heq := h.count_eq
    simp only [List.count_append, count_opening, count_closing]
    omega
  count_le := by
    intro u hu
    obtain ⟨w, hw⟩ := hu
    cases w with
    | nil =>
      have heq := h.count_eq
      rw [List.nil_append] at hw
      simp only [hw, List.count_append, count_opening, count_closing]
      omega
    | cons c w =>
      have hrest : w ++ u = t ++ ")" := List.tail_eq_of_cons_eq hw
      rcases List.append_eq_append_iff.mp hrest with ⟨v, ht, rfl⟩ | ⟨v, -, hlast⟩
      · have hle := h.count_le v ⟨w, ht.symm⟩
        simp only [List.count_append, count_opening, count_closing]
        omega
      · have hsuffix : u <:+ ")" := ⟨v, hlast.symm⟩
        have hnone : CodePoint.ofChar '(' ∉ u := fun hmem =>
          absurd (hsuffix.subset hmem) (by decide)
        rw [List.count_eq_zero.mpr hnone]
        exact Nat.zero_le _

theorem closed_join {parts : List Text} (h : ∀ part ∈ parts, Closed part) :
    Closed (join "," parts) := by
  have hcomma : Closed "," := closed_of_not_mem (by decide) (by decide)
  induction parts with
  | nil => exact closed_nil
  | cons part rest ih =>
    have hpart : Closed part := h part List.mem_cons_self
    cases rest with
    | nil => exact hpart
    | cons next more =>
      have hrest := ih fun other hmem => h other (List.mem_cons_of_mem part hmem)
      exact (hpart.append hcomma).append hrest

/-- Where a closed text follows a parenthesis, that parenthesis is not part of another closed
text with the same end. -/
theorem eq_nil_of_append_opening {s t t' : Text} (ht : Closed t) (ht' : Closed t')
    (h : CodePoint.ofChar '(' :: t = s ++ CodePoint.ofChar '(' :: t') : s = [] := by
  cases s with
  | nil => rfl
  | cons c s =>
    have hrest : t = s ++ CodePoint.ofChar '(' :: t' := List.tail_eq_of_cons_eq h
    exact absurd ⟨s, hrest.symm⟩ (ht'.not_suffix ht)

/-- Whatever stands in front of a closed text in parentheses, there is one way to split it off. -/
theorem append_parenthesize_inj {s s' t t' : Text} (ht : Closed t) (ht' : Closed t')
    (h : s ++ ("(" ++ t ++ ")") = s' ++ ("(" ++ t' ++ ")")) : s = s' ∧ t = t' := by
  rw [← List.append_assoc, ← List.append_assoc s'] at h
  have hopened : s ++ CodePoint.ofChar '(' :: t = s' ++ CodePoint.ofChar '(' :: t' :=
    List.append_cancel_right h
  have hfront : s = s' := by
    rcases List.append_eq_append_iff.mp hopened with ⟨u, hs, heq⟩ | ⟨u, hs, heq⟩
    · rw [hs, eq_nil_of_append_opening ht ht' heq, List.append_nil]
    · rw [hs, eq_nil_of_append_opening ht' ht heq, List.append_nil]
  subst hfront
  exact ⟨rfl, List.tail_eq_of_cons_eq (List.append_cancel_left hopened)⟩

end AbiBindings.Text
