import AbiBindings.Text.Basic
import Mathlib.Algebra.Group.Nat.Defs

/-!
Hexadecimal numbers as text. A number below a power of sixteen is the value of that many of its
digits, so digits of one width spell one number each.
-/

namespace AbiBindings

namespace CodePoint

theorem val_hexDigit {n : Nat} (hn : n < 16) :
    (hexDigit n).val = if n < 10 then 48 + n else 87 + n := by
  rw [hexDigit, val_ofNat]
  split <;> omega

theorem digitValue_hexDigit {n : Nat} (hn : n < 16) : (hexDigit n).digitValue = n := by
  have hval := val_hexDigit hn
  unfold digitValue
  split at hval
  · rw [if_pos (by omega)]
    omega
  · rw [if_neg (by omega), if_neg (by omega)]
    omega

theorem isHexDigit_hexDigit {n : Nat} (hn : n < 16) : (hexDigit n).isHexDigit = true := by
  have hval := val_hexDigit hn
  simp only [isHexDigit, isDigit, Bool.or_eq_true, Bool.and_eq_true, decide_eq_true_eq]
  split at hval <;> omega

end CodePoint

namespace Text

theorem hexValue_concat (digits : Text) (d : CodePoint) :
    hexValue (digits ++ [d]) = hexValue digits * 16 + d.digitValue := by
  rw [hexValue, List.foldl_append, List.foldl_cons, List.foldl_nil, hexValue]

@[simp] theorem length_ofHex (width n : Nat) : (ofHex width n).length = width := by
  induction width generalizing n with
  | zero => rfl
  | succ width ih => rw [ofHex, List.length_append, ih, List.length_singleton]

theorem isHexDigit_of_mem_ofHex {width n : Nat} {c : CodePoint} (hc : c ∈ ofHex width n) :
    c.isHexDigit = true := by
  induction width generalizing n with
  | zero => exact absurd hc List.not_mem_nil
  | succ width ih =>
    rw [ofHex, List.mem_append, List.mem_singleton] at hc
    rcases hc with hc | rfl
    · exact ih hc
    · exact CodePoint.isHexDigit_hexDigit (Nat.mod_lt n (by omega))

/-- The digits of a number have it as their value, if there are enough of them. -/
theorem hexValue_ofHex {width n : Nat} (hn : n < 16 ^ width) : hexValue (ofHex width n) = n := by
  induction width generalizing n with
  | zero =>
    have hzero : n = 0 := by omega
    rw [hzero]
    rfl
  | succ width ih =>
    have hdiv : n / 16 < 16 ^ width := by
      apply Nat.div_lt_of_lt_mul
      rwa [Nat.mul_comm, ← Nat.pow_succ]
    rw [ofHex, hexValue_concat, ih hdiv,
      CodePoint.digitValue_hexDigit (Nat.mod_lt n (by omega))]
    omega

theorem ofHex_injective {width m n : Nat} (hm : m < 16 ^ width) (hn : n < 16 ^ width)
    (h : ofHex width m = ofHex width n) : m = n := by
  rw [← hexValue_ofHex hm, h, hexValue_ofHex hn]

end Text

end AbiBindings
