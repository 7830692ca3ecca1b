import AbiBindings.Text.Basic

/-!
Splitting at a separator and joining again. Parts without the separator survive being joined and
split, and a text survives being split and joined, so a text has only one way to be made of such
parts.
-/

namespace AbiBindings.Text

variable {separator : CodePoint}

theorem splitOn_ne_nil (t : Text) : splitOn separator t ≠ [] := by
  cases t with
  | nil => exact List.cons_ne_nil _ _
  | cons c rest =>
    rw [splitOn]
    split
    · exact List.cons_ne_nil _ _
    · split <;> exact List.cons_ne_nil _ _

theorem splitOn_cons_separator (t : Text) :
    splitOn separator (separator :: t) = [] :: splitOn separator t := by
  rw [splitOn, if_pos rfl]

theorem splitOn_cons_of_ne {c : CodePoint} (hc : c ≠ separator) {t part : Text}
    {parts : List Text} (h : splitOn separator t = part :: parts) :
    splitOn separator (c :: t) = (c :: part) :: parts := by
  rw [splitOn, if_neg hc, h]

/-- A part ends where the first separator stands. -/
theorem splitOn_append_separator {part : Text} (hpart : separator ∉ part) (t : Text) :
    splitOn separator (part ++ separator :: t) = part :: splitOn separator t := by
  induction part with
  | nil => exact splitOn_cons_separator t
  | cons c rest ih =>
    rw [List.mem_cons, not_or] at hpart
    exact splitOn_cons_of_ne (Ne.symm hpart.1) (ih hpart.2)

theorem splitOn_of_not_mem {t : Text} (h : separator ∉ t) : splitOn separator t = [t] := by
  induction t with
  | nil => rfl
  | cons c rest ih =>
    rw [List.mem_cons, not_or] at h
    exact splitOn_cons_of_ne (Ne.symm h.1) (ih h.2)

theorem splitOn_join {parts : List Text} (hne : parts ≠ [])
    (h : ∀ part ∈ parts, separator ∉ part) :
    splitOn separator (join [separator] parts) = parts := by
  induction parts with
  | nil => exact absurd rfl hne
  | cons part rest ih =>
    rw [List.forall_mem_cons] at h
    cases rest with
    | nil => exact splitOn_of_not_mem h.1
    | cons next others =>
      rw [join, List.append_assoc, List.singleton_append, splitOn_append_separator h.1,
        ih (List.cons_ne_nil _ _) h.2]

theorem join_cons_head (separator : Text) (c : CodePoint) (part : Text) (parts : List Text) :
    join separator ((c :: part) :: parts) = c :: join separator (part :: parts) := by
  cases parts with
  | nil => rfl
  | cons next others => rfl

theorem join_splitOn (t : Text) : join [separator] (splitOn separator t) = t := by
  induction t with
  | nil => rfl
  | cons c rest ih =>
    obtain ⟨part, parts, hsplit⟩ := List.exists_cons_of_ne_nil (splitOn_ne_nil rest)
    by_cases hc : c = separator
    · rw [hc, splitOn_cons_separator]
      rw [hsplit] at ih ⊢
      rw [join, ih]
      rfl
    · rw [splitOn_cons_of_ne hc hsplit, join_cons_head, ← hsplit, ih]

end AbiBindings.Text
