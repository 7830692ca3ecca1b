import AbiBindings.Text.Basic

/-!
Runs of code points of one class at the start of a text, and trimming. A run that the text after
it does not continue is split off whole; trimming leaves a stretch of the text, and all of it when
there is no blank.
-/

namespace AbiBindings.Text

def NotAhead (p : CodePoint → Bool) (t : Text) : Prop := t.head?.any p = false

section

variable {p : CodePoint → Bool}

@[simp] theorem notAhead_nil : NotAhead p [] := rfl

@[simp] theorem notAhead_cons {c : CodePoint} {t : Text} :
    NotAhead p (c :: t) ↔ p c = false := Iff.rfl

/-- Where a whole class is not ahead, a part of it is not either. -/
theorem NotAhead.mono {q : CodePoint → Bool} {t : Text} (h : NotAhead q t)
    (hpq : ∀ c, p c = true → q c = true) : NotAhead p t := by
  cases t with
  | nil => exact notAhead_nil
  | cons c rest =>
    rw [notAhead_cons] at h ⊢
    rw [Bool.eq_false_iff] at h ⊢
    exact fun hp => h (hpq c hp)

theorem notAhead_of_forall {t : Text} (h : ∀ c ∈ t, p c = false) : NotAhead p t := by
  cases t with
  | nil => exact notAhead_nil
  | cons c rest => exact notAhead_cons.mpr (h c List.mem_cons_self)

theorem notAhead_dropWhile (t : Text) : NotAhead p (t.dropWhile p) := by
  have h := List.head?_dropWhile_not p t
  cases hrest : t.dropWhile p with
  | nil => exact notAhead_nil
  | cons c rest =>
    rw [hrest] at h
    exact h

theorem takeWhile_eq_nil {t : Text} (h : NotAhead p t) : t.takeWhile p = [] := by
  cases t with
  | nil => rfl
  | cons c rest =>
    rw [notAhead_cons] at h
    simp [h]

theorem dropWhile_eq_self {t : Text} (h : NotAhead p t) : t.dropWhile p = t := by
  cases t with
  | nil => rfl
  | cons c rest =>
    rw [notAhead_cons] at h
    simp [h]

/-- A run that the rest does not continue is the run taken. -/
theorem takeWhile_run {run rest : Text} (hrun : ∀ c ∈ run, p c = true) (h : NotAhead p rest) :
    (run ++ rest).takeWhile p = run := by
  rw [List.takeWhile_append_of_pos hrun, takeWhile_eq_nil h, List.append_nil]

theorem dropWhile_run {run rest : Text} (hrun : ∀ c ∈ run, p c = true) (h : NotAhead p rest) :
    (run ++ rest).dropWhile p = rest := by
  rw [List.dropWhile_append_of_pos hrun, dropWhile_eq_self h]

/-- Two splits of one text after its run are the same. -/
theorem run_unique {run run' rest rest' : Text} (hrun : ∀ c ∈ run, p c = true)
    (hrun' : ∀ c ∈ run', p c = true) (h : NotAhead p rest) (h' : NotAhead p rest')
    (heq : run ++ rest = run' ++ rest') : run = run' ∧ rest = rest' := by
  constructor
  · rw [← takeWhile_run hrun h, heq, takeWhile_run hrun' h']
  · rw [← dropWhile_run hrun h, heq, dropWhile_run hrun' h']

/-- Only code points of the class are dropped. -/
theorem mem_dropWhile {t : Text} {c : CodePoint} (hc : p c = false) :
    c ∈ t.dropWhile p ↔ c ∈ t := by
  induction t with
  | nil => rw [List.dropWhile_nil]
  | cons d rest ih =>
    by_cases hd : p d = true
    · have hne : c ≠ d := by
        rintro rfl
        rw [hc] at hd
        exact absurd hd (by decide)
      rw [List.dropWhile_cons_of_pos hd, ih, List.mem_cons, or_iff_right hne]
    · rw [List.dropWhile_cons_of_neg hd]

theorem of_mem_takeWhile {t : Text} {c : CodePoint} (hc : c ∈ t.takeWhile p) : p c = true :=
  List.all_eq_true.mp List.all_takeWhile c hc

end

/-- What trimming leaves is a stretch of the text. -/
theorem trim_isInfix (t : Text) : trim t <:+: t := by
  have hstart : t.dropWhile CodePoint.isBlank <:+ t := List.dropWhile_suffix CodePoint.isBlank
  have hend : trim t <+: t.dropWhile CodePoint.isBlank := by
    have h := List.dropWhile_suffix (l := (t.dropWhile CodePoint.isBlank).reverse)
      CodePoint.isBlank
    rw [← List.reverse_prefix, List.reverse_reverse] at h
    exact h
  exact hend.isInfix.trans hstart.isInfix

/-- Only blanks are trimmed off. -/
theorem mem_trim {t : Text} {c : CodePoint} (hc : c.isBlank = false) : c ∈ trim t ↔ c ∈ t := by
  rw [trim, trimEnd, List.mem_reverse, mem_dropWhile hc, List.mem_reverse, mem_dropWhile hc]

/-- A text with no blank at either end is already trimmed. -/
theorem trim_eq_of_notAhead {t : Text} (hstart : NotAhead CodePoint.isBlank t)
    (hend : NotAhead CodePoint.isBlank t.reverse) : trim t = t := by
  rw [trim, dropWhile_eq_self hstart, trimEnd, dropWhile_eq_self hend, List.reverse_reverse]

/-- A text without blanks is already trimmed. -/
theorem trim_eq_self {t : Text} (h : ∀ c ∈ t, c.isBlank = false) : trim t = t := by
  apply trim_eq_of_notAhead (notAhead_of_forall h)
  apply notAhead_of_forall
  intro c hc
  exact h c (List.mem_reverse.mp hc)

/-- Dropping a class at both ends takes a run off each, and leaves none there. -/
theorem exists_of_dropWhile_both (p : CodePoint → Bool) (t : Text) :
    ∃ front back, t = front ++ (((t.dropWhile p).reverse).dropWhile p).reverse ++ back ∧
      (∀ c ∈ front, p c = true) ∧ (∀ c ∈ back, p c = true) ∧
      NotAhead p (((t.dropWhile p).reverse).dropWhile p).reverse ∧
      NotAhead p (((t.dropWhile p).reverse).dropWhile p) := by
  have hback : t.dropWhile p = (((t.dropWhile p).reverse).dropWhile p).reverse ++
      (((t.dropWhile p).reverse).takeWhile p).reverse := by
    rw [← List.reverse_append, List.takeWhile_append_dropWhile, List.reverse_reverse]
  refine ⟨t.takeWhile p, (((t.dropWhile p).reverse).takeWhile p).reverse, ?_, ?_, ?_, ?_, ?_⟩
  · rw [List.append_assoc, ← hback, List.takeWhile_append_dropWhile]
  · exact fun c hc => of_mem_takeWhile hc
  · exact fun c hc => of_mem_takeWhile (List.mem_reverse.mp hc)
  · have hstart := notAhead_dropWhile (p := p) t
    cases hmiddle : (((t.dropWhile p).reverse).dropWhile p).reverse with
    | nil => exact notAhead_nil
    | cons c rest =>
      rw [hback, hmiddle] at hstart
      exact hstart
  · exact notAhead_dropWhile _

/-- The last character of a trimmed text is no blank. -/
theorem notAhead_reverse_trim (t : Text) : NotAhead CodePoint.isBlank (trim t).reverse := by
  rw [trim, trimEnd, List.reverse_reverse]
  exact notAhead_dropWhile _

/-- A text is what is left without its last line end, or that with a line end. -/
theorem eq_dropLineEnd (t : Text) :
    t = dropLineEnd t ∨ t = dropLineEnd t ++ [CodePoint.ofChar '\n'] := by
  rw [dropLineEnd]
  split
  · next hlast =>
    obtain ⟨start, rfl⟩ := List.getLast?_eq_some_iff.mp (eq_of_beq hlast)
    rw [List.dropLast_concat]
    exact .inr rfl
  · exact .inl rfl

/-- Underscores are taken off both ends until none is left there. -/
theorem exists_eq_trimUnderscores (t : Text) :
    ∃ before after, t = List.replicate before (CodePoint.ofChar '_') ++ trimUnderscores t ++
        List.replicate after (CodePoint.ofChar '_') ∧
      (trimUnderscores t).head? ≠ some (CodePoint.ofChar '_') ∧
      (trimUnderscores t).getLast? ≠ some (CodePoint.ofChar '_') := by
  obtain ⟨front, back, heq, hfront, hback, hstart, hend⟩ :=
    exists_of_dropWhile_both (· == ('_' : CodePoint)) t
  rw [← trimUnderscores] at heq hstart
  have hrun (run : Text) (hrun : ∀ c ∈ run, (c == ('_' : CodePoint)) = true) :
      run = List.replicate run.length (CodePoint.ofChar '_') := by
    rw [List.eq_replicate_iff]
    exact ⟨rfl, fun c hc => eq_of_beq (hrun c hc)⟩
  refine ⟨front.length, back.length, ?_, ?_, ?_⟩
  · rw [← hrun front hfront, ← hrun back hback]
    exact heq
  · intro hhead
    rw [NotAhead, hhead] at hstart
    cases hstart
  · intro hlast
    rw [trimUnderscores, List.getLast?_reverse] at hlast
    rw [NotAhead, hlast] at hend
    cases hend

end AbiBindings.Text
