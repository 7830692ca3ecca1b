import AbiBindings.Proofs.Text.Classes
import AbiBindings.Proofs.Text.Decimal

/-!
Plain text: ASCII that neither quotes nor escapes anything and starts no comment. Everything the
program writes into its source outside literals and comments is plain, identifiers above all.
-/

namespace AbiBindings

/-- A space or a visible ASCII character other than quote marks, the number sign and the
backslash. -/
def CodePoint.isPlain (c : CodePoint) : Bool :=
  decide (32 ≤ c.val) && decide (c.val < 127) && decide (c.val ∉ [34, 35, 39, 92])

theorem CodePoint.isPlain_of_isIdentifierPart {c : CodePoint} (h : c.isIdentifierPart = true) :
    c.isPlain = true := by
  simp only [isIdentifierPart, isIdentifierStart, isUpper, isLower, isDigit, Bool.or_eq_true,
    Bool.and_eq_true, decide_eq_true_eq] at h
  simp only [isPlain, Bool.and_eq_true, decide_eq_true_eq, List.mem_cons, List.not_mem_nil,
    or_false, not_or]
  omega

theorem CodePoint.le_val_of_isPlain {c : CodePoint} (h : c.isPlain = true) : 32 ≤ c.val := by
  simp only [isPlain, Bool.and_eq_true, decide_eq_true_eq] at h
  exact h.1.1

namespace Text

section

variable {P : CodePoint → Prop}

theorem forall_mem_flatMap {α : Type} {f : α → Text} {items : List α} :
    (∀ c ∈ items.flatMap f, P c) ↔ ∀ item ∈ items, ∀ c ∈ f item, P c := by
  simp only [List.mem_flatMap]
  constructor
  · intro h item hitem c hc
    exact h c ⟨item, hitem, hc⟩
  · rintro h c ⟨item, hitem, hc⟩
    exact h item hitem c hc

theorem forall_mem_join {separator : Text} (hseparator : ∀ c ∈ separator, P c)
    {parts : List Text} :
    (∀ c ∈ join separator parts, P c) ↔ ∀ part ∈ parts, ∀ c ∈ part, P c := by
  induction parts with
  | nil => simp [join]
  | cons part rest ih =>
    cases rest with
    | nil => simp [join]
    | cons next others =>
      simp only [join, List.forall_mem_append, List.forall_mem_cons] at ih ⊢
      rw [ih]
      constructor
      · exact fun h => ⟨h.1.1, h.2⟩
      · exact fun h => ⟨⟨h.1, hseparator⟩, h.2⟩

end

def Plain (t : Text) : Prop := ∀ c ∈ t, c.isPlain = true

instance (t : Text) : Decidable (Plain t) :=
  inferInstanceAs (Decidable (∀ c ∈ t, c.isPlain = true))

section

variable {s t : Text}

@[simp] theorem plain_append : Plain (s ++ t) ↔ Plain s ∧ Plain t := List.forall_mem_append

theorem plain_flatMap {α : Type} {f : α → Text} {items : List α} :
    Plain (items.flatMap f) ↔ ∀ item ∈ items, Plain (f item) := forall_mem_flatMap

theorem plain_join {separator : Text} (hseparator : Plain separator) {parts : List Text} :
    Plain (join separator parts) ↔ ∀ part ∈ parts, Plain part := forall_mem_join hseparator

theorem plain_of_isIdentifierPart (h : ∀ c ∈ t, c.isIdentifierPart = true) : Plain t :=
  fun c hc => CodePoint.isPlain_of_isIdentifierPart (h c hc)

end

end Text

end AbiBindings
