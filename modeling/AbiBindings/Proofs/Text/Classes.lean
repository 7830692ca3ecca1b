import AbiBindings.Text.Basic

/-!
How the classes of code points lie to each other. Letters, digits and the underscore are what an
identifier is made of; none of them is a blank, and a digit is no letter.
-/

namespace AbiBindings.CodePoint

/-- An ASCII letter or digit: what an identifier shows besides underscores. -/
def isAlphanumeric (c : CodePoint) : Bool := c.isUpper || c.isLower || c.isDigit

theorem isAlphanumeric_iff {c : CodePoint} :
    c.isAlphanumeric = true ↔ c.isIdentifierPart = true ∧ c ≠ ofChar '_' := by
  have hunderscore : c = ofChar '_' ↔ c.val = 95 := ⟨fun h => by rw [h]; rfl, fun h => ext h⟩
  rw [ne_eq, hunderscore]
  simp only [isAlphanumeric, isIdentifierPart, isIdentifierStart, isUpper, isLower, isDigit,
    Bool.or_eq_true, Bool.and_eq_true, decide_eq_true_eq]
  omega

theorem isIdentifierPart_of_isLower {c : CodePoint} (h : c.isLower = true) :
    c.isIdentifierPart = true := by
  simp [isIdentifierPart, isIdentifierStart, h]

theorem isIdentifierPart_of_isDigit {c : CodePoint} (h : c.isDigit = true) :
    c.isIdentifierPart = true := by
  simp [isIdentifierPart, h]

theorem isBlank_of_isIdentifierPart {c : CodePoint} (h : c.isIdentifierPart = true) :
    c.isBlank = false := by
  rw [Bool.eq_false_iff]
  intro hblank
  simp only [isIdentifierPart, isIdentifierStart, isUpper, isLower, isDigit, isBlank,
    Bool.or_eq_true, Bool.and_eq_true, decide_eq_true_eq, beq_iff_eq] at h hblank
  omega

theorem isBlank_of_isLower {c : CodePoint} (h : c.isLower = true) : c.isBlank = false :=
  isBlank_of_isIdentifierPart (isIdentifierPart_of_isLower h)

theorem isBlank_of_isDigit {c : CodePoint} (h : c.isDigit = true) : c.isBlank = false :=
  isBlank_of_isIdentifierPart (isIdentifierPart_of_isDigit h)

theorem isLower_of_isDigit {c : CodePoint} (h : c.isDigit = true) : c.isLower = false := by
  simp only [isDigit, Bool.and_eq_true, decide_eq_true_eq] at h
  simp only [isLower, Bool.and_eq_false_iff, decide_eq_false_iff_not]
  omega

theorem isUpper_of_isDigit {c : CodePoint} (h : c.isDigit = true) : c.isUpper = false := by
  simp only [isDigit, Bool.and_eq_true, decide_eq_true_eq] at h
  simp only [isUpper, Bool.and_eq_false_iff, decide_eq_false_iff_not]
  omega

theorem isDigit_of_isIdentifierStart {c : CodePoint} (h : c.isIdentifierStart = true) :
    c.isDigit = false := by
  simp only [isIdentifierStart, isUpper, isLower, Bool.or_eq_true, Bool.and_eq_true,
    decide_eq_true_eq] at h
  simp only [isDigit, Bool.and_eq_false_iff, decide_eq_false_iff_not]
  omega

end AbiBindings.CodePoint
