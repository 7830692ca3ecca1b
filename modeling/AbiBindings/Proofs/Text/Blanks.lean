import AbiBindings.Proofs.Text.Run

/-!
Texts without their blanks, and blanks around a text. Taking the blanks out keeps everything else
in its place, so a text that starts or ends in no blank still does so; trimming finds again what
was put between blanks.
-/

namespace AbiBindings.Text

theorem isBlank_of_mem_withoutBlanks {t : Text} {c : CodePoint} (h : c ∈ withoutBlanks t) :
    c.isBlank = false := by
  simpa using (List.mem_filter.mp h).2

theorem withoutBlanks_append (s t : Text) :
    withoutBlanks (s ++ t) = withoutBlanks s ++ withoutBlanks t :=
  List.filter_append s t

theorem withoutBlanks_eq_nil {t : Text} (h : ∀ c ∈ t, c.isBlank = true) :
    withoutBlanks t = [] := by
  rw [withoutBlanks, List.filter_eq_nil_iff]
  intro c hc
  rw [h c hc]
  decide

theorem withoutBlanks_cons {c : CodePoint} (hc : c.isBlank = true) (t : Text) :
    withoutBlanks (c :: t) = withoutBlanks t := by
  rw [withoutBlanks, List.filter_cons_of_neg (by simp [hc]), withoutBlanks]

theorem withoutBlanks_cons_of_not {c : CodePoint} (hc : c.isBlank = false) (t : Text) :
    withoutBlanks (c :: t) = c :: withoutBlanks t := by
  rw [withoutBlanks, List.filter_cons_of_pos (by simp [hc]), withoutBlanks]

/-- Blanks around a text go with the others. -/
theorem withoutBlanks_surround {front back : Text} (hfront : ∀ c ∈ front, c.isBlank = true)
    (hback : ∀ c ∈ back, c.isBlank = true) (core : Text) :
    withoutBlanks (front ++ core ++ back) = withoutBlanks core := by
  rw [withoutBlanks_append, withoutBlanks_append, withoutBlanks_eq_nil hfront,
    withoutBlanks_eq_nil hback, List.nil_append, List.append_nil]

theorem withoutBlanks_dropWhile (t : Text) :
    withoutBlanks (t.dropWhile CodePoint.isBlank) = withoutBlanks t := by
  conv => rhs; rw [← List.takeWhile_append_dropWhile (p := CodePoint.isBlank) (l := t)]
  rw [withoutBlanks_append, withoutBlanks_eq_nil fun c => of_mem_takeWhile, List.nil_append]

/-- A text that starts in no blank starts in the same without its blanks. -/
theorem head?_withoutBlanks {t : Text} (h : NotAhead CodePoint.isBlank t) :
    (withoutBlanks t).head? = t.head? := by
  cases t with
  | nil => rfl
  | cons c rest => rw [withoutBlanks_cons_of_not h, List.head?_cons, List.head?_cons]

/-- A text that ends in no blank ends in the same without its blanks. -/
theorem getLast?_withoutBlanks {t : Text} (h : NotAhead CodePoint.isBlank t.reverse) :
    (withoutBlanks t).getLast? = t.getLast? := by
  rw [← List.head?_reverse, withoutBlanks, ← List.filter_reverse, ← withoutBlanks,
    head?_withoutBlanks h, List.head?_reverse]

/-- Trimming takes off the blanks around a text that neither starts nor ends in one. -/
theorem trim_surround {front core back : Text} (hfront : ∀ c ∈ front, c.isBlank = true)
    (hback : ∀ c ∈ back, c.isBlank = true) (hne : core ≠ [])
    (hstart : NotAhead CodePoint.isBlank core) (hend : NotAhead CodePoint.isBlank core.reverse) :
    trim (front ++ core ++ back) = core := by
  have hahead : NotAhead CodePoint.isBlank (core ++ back) := by
    obtain ⟨c, rest, rfl⟩ := List.exists_cons_of_ne_nil hne
    exact hstart
  have hrun : ∀ c ∈ back.reverse, c.isBlank = true := fun c hc => hback c (List.mem_reverse.mp hc)
  rw [List.append_assoc, trim, dropWhile_run hfront hahead, trimEnd, List.reverse_append,
    dropWhile_run hrun hend, List.reverse_reverse]

/-- Where there is no other blank, trimming takes off the line end at the end. -/
theorem trim_eq_dropLineEnd {t : Text} (h : ∀ c ∈ dropLineEnd t, c.isBlank = false)
    (hne : dropLineEnd t ≠ []) : trim t = dropLineEnd t := by
  rcases eq_dropLineEnd t with heq | heq
  · rw [← heq] at h ⊢
    exact trim_eq_self h
  · have hback : ∀ c ∈ [CodePoint.ofChar '\n'], c.isBlank = true :=
      List.forall_mem_singleton.mpr rfl
    have hend : NotAhead CodePoint.isBlank (dropLineEnd t).reverse :=
      notAhead_of_forall fun c hc => h c (List.mem_reverse.mp hc)
    have htrim := trim_surround (List.forall_mem_nil _) hback hne (notAhead_of_forall h) hend
    rwa [List.nil_append, ← heq] at htrim

/-- Every text is its trimmed form with blanks around it. -/
theorem exists_surround (t : Text) :
    ∃ front back, t = front ++ trim t ++ back ∧ (∀ c ∈ front, c.isBlank = true) ∧
      (∀ c ∈ back, c.isBlank = true) ∧ NotAhead CodePoint.isBlank (trim t) ∧
      NotAhead CodePoint.isBlank (trim t).reverse := by
  obtain ⟨front, back, heq, hfront, hback, hstart, hend⟩ :=
    exists_of_dropWhile_both CodePoint.isBlank t
  refine ⟨front, back, heq, hfront, hback, hstart, ?_⟩
  rw [trim, trimEnd, List.reverse_reverse]
  exact hend

end AbiBindings.Text
