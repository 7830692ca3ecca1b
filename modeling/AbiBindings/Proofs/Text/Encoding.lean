import AbiBindings.Text.Utf8
import Mathlib.Data.List.Basic
import Mathlib.Tactic.SplitIfs

/-!
Two texts with one UTF-8 form are the same. The first byte of a code point tells how many bytes
belong to it, and each of these holds its share of the number.
-/

namespace AbiBindings.Text

/-- The bytes of a code point as numbers. -/
def unitsOf (n : Nat) : List Nat :=
  if n < 0x80 then [n]
  else if n < 0x800 then [0xC0 + n / 0x40, 0x80 + n % 0x40]
  else if n < 0x10000 then [0xE0 + n / 0x1000, 0x80 + n / 0x40 % 0x40, 0x80 + n % 0x40]
  else [0xF0 + n / 0x40000, 0x80 + n / 0x1000 % 0x40, 0x80 + n / 0x40 % 0x40, 0x80 + n % 0x40]

theorem toNat_encodeOne (c : CodePoint) : (encodeOne c).map UInt8.toNat = unitsOf c.val := by
  have hc := c.lt
  have hsmall : ∀ n : Nat, n < 256 → n.toUInt8.toNat = n := fun n hn => by
    simp only [Nat.toUInt8, UInt8.toNat_ofNat', Nat.reducePow]
    omega
  unfold encodeOne unitsOf
  split_ifs
  · simp only [List.map_cons, List.map_nil]
    rw [hsmall _ (by omega)]
  · simp only [List.map_cons, List.map_nil]
    rw [hsmall _ (by omega), hsmall _ (by omega)]
  · simp only [List.map_cons, List.map_nil]
    rw [hsmall _ (by omega), hsmall _ (by omega), hsmall _ (by omega)]
  · simp only [List.map_cons, List.map_nil]
    rw [hsmall _ (by omega), hsmall _ (by omega), hsmall _ (by omega), hsmall _ (by omega)]

/-- No code point starts like another. -/
theorem unitsOf_append_inj {n n' : Nat} (hn : n < 0x110000) (hn' : n' < 0x110000)
    {rest rest' : List Nat} (h : unitsOf n ++ rest = unitsOf n' ++ rest') :
    n = n' ∧ rest = rest' := by
  unfold unitsOf at h
  split_ifs at h <;> simp only [List.cons_append, List.nil_append, List.cons.injEq] at h
  -- The first bytes differ unless both code points have as many.
  all_goals first
    | (exfalso; omega)
    | exact ⟨by omega, by simp only [h]⟩

theorem flatMap_encodeOne_injective :
    Function.Injective fun t : Text => t.flatMap encodeOne := by
  intro t t' h
  replace h : t.flatMap (fun c => unitsOf c.val) = t'.flatMap fun c => unitsOf c.val := by
    have hunits : ∀ t : Text, (t.flatMap encodeOne).map UInt8.toNat =
        t.flatMap fun c => unitsOf c.val := by
      intro t
      rw [List.map_flatMap]
      simp only [toNat_encodeOne]
    rw [← hunits, ← hunits]
    exact congrArg _ h
  have hsome : ∀ n, unitsOf n ≠ [] := by
    intro n
    unfold unitsOf
    split_ifs <;> simp
  induction t generalizing t' with
  | nil =>
    cases t' with
    | nil => rfl
    | cons c' t' =>
      rw [List.flatMap_nil, List.flatMap_cons] at h
      exact absurd (List.append_eq_nil_iff.mp h.symm).1 (hsome _)
  | cons c t ih =>
    cases t' with
    | nil =>
      rw [List.flatMap_nil, List.flatMap_cons] at h
      exact absurd (List.append_eq_nil_iff.mp h).1 (hsome _)
    | cons c' t' =>
      rw [List.flatMap_cons, List.flatMap_cons] at h
      obtain ⟨hc, hrest⟩ := unitsOf_append_inj c.lt c'.lt h
      rw [CodePoint.ext hc, ih hrest]

theorem encode_injective {t t' : Text} {bytes : List UInt8} (h : encode t = .ok bytes)
    (h' : encode t' = .ok bytes) : t = t' := by
  apply flatMap_encodeOne_injective
  unfold encode at h h'
  split at h
  · cases h
  split at h'
  · cases h'
  exact (Except.ok.inj h).trans (Except.ok.inj h').symm

end AbiBindings.Text
