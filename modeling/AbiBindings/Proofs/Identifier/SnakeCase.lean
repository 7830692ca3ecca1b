import AbiBindings.Identifier.Basic
import AbiBindings.Proofs.Text.Classes

/-!
Names in small letters. Setting words off adds underscores and nothing else, and the small form of
a code point holds no capital; so a name in snake case has no capitals, and it has a letter or a
digit exactly when the name has one or one of the two capitals beyond ASCII that become one. An
identifier without capitals is in snake case already.
-/

namespace AbiBindings.Identifier

theorem mem_setOffWords {c : CodePoint} (hc : c ≠ CodePoint.ofChar '_') (place : Place)
    (t : Text) : c ∈ setOffWords place t ↔ c ∈ t := by
  induction t generalizing place with
  | nil => rw [setOffWords]
  | cons d rest ih =>
    rw [setOffWords]
    split
    · rw [List.mem_cons, List.mem_cons, ih]
    · split
      · rw [List.mem_cons, List.mem_cons, List.mem_cons, ih, or_iff_right hc]
      · rw [List.mem_cons, List.mem_cons, ih]

theorem mem_setOffCapitals {c : CodePoint} (hc : c ≠ CodePoint.ofChar '_') (afterSmall : Bool)
    (t : Text) : c ∈ setOffCapitals afterSmall t ↔ c ∈ t := by
  induction t generalizing afterSmall with
  | nil => rw [setOffCapitals]
  | cons d rest ih =>
    rw [setOffCapitals]
    split
    · rw [List.mem_cons, List.mem_cons, List.mem_cons, ih, or_iff_right hc]
    · rw [List.mem_cons, List.mem_cons, ih]

/-- A code point with an ASCII letter or digit in its small form. -/
def showsInLower (c : CodePoint) : Bool :=
  c.isAlphanumeric || c.val == 0x130 || c.val == 0x212A

theorem isUpper_of_mem_lowerOne {c d : CodePoint} (hc : c ∈ lowerOne d) : c.isUpper = false := by
  unfold lowerOne at hc
  split at hc
  · next hupper =>
    rw [List.mem_singleton] at hc
    simp only [CodePoint.isUpper, Bool.and_eq_true, decide_eq_true_eq] at hupper
    have hval : c.val = d.val + 32 := by rw [hc, CodePoint.val_ofNat (by omega)]
    simp only [CodePoint.isUpper, Bool.and_eq_false_iff, decide_eq_false_iff_not]
    omega
  · next hupper =>
    split at hc
    · rw [List.mem_cons, List.mem_singleton] at hc
      rcases hc with rfl | rfl
      · decide
      · decide
    · split at hc
      · rw [List.mem_singleton] at hc
        rw [hc]
        decide
      · rw [List.mem_singleton] at hc
        rw [hc]
        exact Bool.eq_false_iff.mpr hupper

/-- What identifiers are made of is its own small form, but for capitals. -/
theorem lowerOne_eq_self {c : CodePoint} (hpart : c.isIdentifierPart = true)
    (hupper : c.isUpper = false) : lowerOne c = [c] := by
  have hle : c.val ≤ 122 := by
    simp only [CodePoint.isIdentifierPart, CodePoint.isIdentifierStart, CodePoint.isUpper,
      CodePoint.isLower, CodePoint.isDigit, Bool.or_eq_true, Bool.and_eq_true,
      decide_eq_true_eq] at hpart
    omega
  rw [lowerOne, hupper, if_neg Bool.false_ne_true, if_neg (by omega), if_neg (by omega)]

theorem exists_alphanumeric_mem_lowerOne (d : CodePoint) :
    (∃ c ∈ lowerOne d, c.isAlphanumeric = true) ↔ showsInLower d = true := by
  unfold lowerOne
  split
  · next hupper =>
    have hshows : showsInLower d = true := by simp [showsInLower, CodePoint.isAlphanumeric, hupper]
    simp only [CodePoint.isUpper, Bool.and_eq_true, decide_eq_true_eq] at hupper
    refine iff_of_true ⟨_, List.mem_singleton_self _, ?_⟩ hshows
    have hval : (CodePoint.ofNat (d.val + 32)).val = d.val + 32 := CodePoint.val_ofNat (by omega)
    have hlower : (CodePoint.ofNat (d.val + 32)).isLower = true := by
      rw [CodePoint.isLower, hval, Bool.and_eq_true, decide_eq_true_eq, decide_eq_true_eq]
      omega
    simp [CodePoint.isAlphanumeric, hlower]
  · split
    · next hdotted =>
      refine iff_of_true ⟨_, List.mem_cons_self, by decide⟩ ?_
      simp [showsInLower, hdotted]
    · split
      · next hkelvin =>
        refine iff_of_true ⟨_, List.mem_singleton_self _, by decide⟩ ?_
        simp [showsInLower, hkelvin]
      · next hdotted hkelvin => simp [showsInLower, hdotted, hkelvin]

/-- A name in snake case has no capitals. -/
theorem isUpper_of_mem_snakeCase {c : CodePoint} {name : Text} (hc : c ∈ snakeCase name) :
    c.isUpper = false := by
  obtain ⟨d, -, hmem⟩ := List.mem_flatMap.mp hc
  exact isUpper_of_mem_lowerOne hmem

/-- A name in snake case has a letter or a digit where the name has something that shows. -/
theorem exists_alphanumeric_mem_snakeCase (name : Text) :
    (∃ c ∈ snakeCase name, c.isAlphanumeric = true) ↔ ∃ d ∈ name, showsInLower d = true := by
  have hset : ∀ d : CodePoint, showsInLower d = true →
      (d ∈ setOffCapitals false (setOffWords .start name) ↔ d ∈ name) := by
    intro d hd
    have hne : d ≠ CodePoint.ofChar '_' := by
      rintro rfl
      exact absurd hd (by decide)
    rw [mem_setOffCapitals hne, mem_setOffWords hne]
  constructor
  · rintro ⟨c, hc, hshown⟩
    obtain ⟨d, hd, hmem⟩ := List.mem_flatMap.mp hc
    have hshows := (exists_alphanumeric_mem_lowerOne d).mp ⟨c, hmem, hshown⟩
    exact ⟨d, (hset d hshows).mp hd, hshows⟩
  · rintro ⟨d, hd, hshows⟩
    obtain ⟨c, hmem, hshown⟩ := (exists_alphanumeric_mem_lowerOne d).mpr hshows
    exact ⟨c, List.mem_flatMap.mpr ⟨d, (hset d hshows).mpr hd, hmem⟩, hshown⟩

section

variable {t : Text} (hsmall : ∀ c ∈ t, c.isUpper = false)
include hsmall

/-- Without a capital there is no word to set off. -/
theorem setOffWords_eq_self (place : Place) : setOffWords place t = t := by
  induction t generalizing place with
  | nil => rw [setOffWords]
  | cons c rest ih =>
    rw [List.forall_mem_cons] at hsmall
    have hword : ¬ (place = .after ∧ c.isUpper ∧ rest.head?.any CodePoint.isLower) := by
      rw [hsmall.1]
      exact fun h => Bool.false_ne_true h.2.1
    rw [setOffWords, if_neg hword, ih hsmall.2, ih hsmall.2, ite_self]

theorem setOffCapitals_eq_self (afterSmall : Bool) : setOffCapitals afterSmall t = t := by
  induction t generalizing afterSmall with
  | nil => rw [setOffCapitals]
  | cons c rest ih =>
    rw [List.forall_mem_cons] at hsmall
    rw [setOffCapitals, hsmall.1, Bool.and_false, ih hsmall.2]
    exact if_neg Bool.false_ne_true

/-- A name of the code points of identifiers that has no capitals is in snake case. -/
theorem snakeCase_eq_self (hparts : ∀ c ∈ t, c.isIdentifierPart = true) : snakeCase t = t := by
  rw [snakeCase, setOffWords_eq_self hsmall, setOffCapitals_eq_self hsmall]
  have hlower : ∀ c ∈ t, lowerOne c = [c] :=
    fun c hc => lowerOne_eq_self (hparts c hc) (hsmall c hc)
  rw [List.flatMap_def, List.map_congr_left hlower, ← List.flatMap_def, List.flatMap_singleton']

end

end AbiBindings.Identifier
