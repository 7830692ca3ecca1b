import AbiBindings.Text.Basic
import Mathlib.Algebra.Group.Nat.Defs
import Mathlib.Data.List.Induction

/-!
Decimal numbers as text. Writing a number and reading it back are inverse to each other: every
number is the value of its digits, and a run of digits without leading zeros is what its value is
written as. So a number has one spelling, and reading can be undone.
-/

namespace AbiBindings

namespace CodePoint

@[simp] theorem val_ofChar (c : Char) : (ofChar c).val = c.toNat := rfl

/-- The digit of a number below ten is an ASCII digit with that value. -/
theorem ofChar_digitChar {n : Nat} (hn : n < 10) :
    (ofChar n.digitChar).val = 48 + n := by
  rw [val_ofChar, Nat.toNat_digitChar_of_lt_ten hn]

theorem digitValue_ofChar_digitChar {n : Nat} (hn : n < 10) :
    (ofChar n.digitChar).digitValue = n := by
  have hval := ofChar_digitChar hn
  have hle : (ofChar n.digitChar).val ≤ 57 := by omega
  rw [digitValue, if_pos hle]
  omega

theorem digitValue_lt_ten {c : CodePoint} (hc : c.isDigit = true) : c.digitValue < 10 := by
  simp only [isDigit, Bool.and_eq_true, decide_eq_true_eq] at hc
  rw [digitValue, if_pos hc.2]
  omega

/-- An ASCII digit is the digit of its value. -/
theorem ofChar_digitChar_digitValue {c : CodePoint} (hc : c.isDigit = true) :
    ofChar c.digitValue.digitChar = c := by
  apply CodePoint.ext
  rw [ofChar_digitChar (digitValue_lt_ten hc)]
  simp only [isDigit, Bool.and_eq_true, decide_eq_true_eq] at hc
  rw [digitValue, if_pos hc.2]
  omega

end CodePoint

namespace Text

theorem ofNat_of_lt_ten {n : Nat} (hn : n < 10) :
    ofNat n = [CodePoint.ofChar n.digitChar] := by
  rw [ofNat, Nat.toDigits_of_lt_base hn, List.map_singleton]

/-- The last digit of a number of several digits is written after the others. -/
theorem ofNat_of_ten_le {n : Nat} (hn : 10 ≤ n) :
    ofNat n = ofNat (n / 10) ++ [CodePoint.ofChar (n % 10).digitChar] := by
  rw [ofNat, Nat.toDigits_of_base_le (by decide) hn, List.map_append, List.map_singleton, ofNat]

theorem length_ofNat_pow (k : Nat) : (ofNat (10 ^ k)).length = k + 1 := by
  induction k with
  | zero => rfl
  | succ k ih =>
    have hten : 10 ≤ 10 ^ (k + 1) := Nat.le_self_pow k.succ_ne_zero 10
    rw [ofNat_of_ten_le hten, Nat.pow_succ, Nat.mul_div_cancel _ (by decide), List.length_append,
      ih, List.length_singleton]

theorem ofNat_ne_nil (n : Nat) : ofNat n ≠ [] := by
  rw [ofNat, ne_eq, List.map_eq_nil_iff]
  exact Nat.toDigits_ne_nil

theorem isDigit_of_mem_ofNat {n : Nat} {c : CodePoint} (hc : c ∈ ofNat n) :
    c.isDigit = true := by
  obtain ⟨digit, hmem, rfl⟩ := List.mem_map.mp hc
  have hdigit := Nat.isDigit_of_mem_toDigits (by decide) (by decide) hmem
  simp only [Char.isDigit, Bool.and_eq_true, decide_eq_true_eq, ge_iff_le,
    UInt32.le_iff_toNat_le] at hdigit
  rw [CodePoint.isDigit, Bool.and_eq_true, decide_eq_true_eq, decide_eq_true_eq]
  exact hdigit

theorem exists_ofNat_eq_cons (n : Nat) :
    ∃ first rest, ofNat n = first :: rest ∧ first.isDigit = true := by
  obtain ⟨first, rest, heq⟩ := List.exists_cons_of_ne_nil (ofNat_ne_nil n)
  exact ⟨first, rest, heq, isDigit_of_mem_ofNat (by rw [heq]; exact List.mem_cons_self)⟩

@[simp] theorem ofInt_natCast (n : Nat) : ofInt (n : Int) = ofNat n := by
  rw [ofInt, if_neg (by omega), Int.natAbs_natCast]

/-- An integer starts with its sign or with a digit. -/
theorem exists_ofInt_eq_cons (i : Int) : ∃ first rest, ofInt i = first :: rest ∧
    (first = CodePoint.ofChar '-' ∨ first.isDigit = true) := by
  obtain ⟨first, rest, heq, hfirst⟩ := exists_ofNat_eq_cons i.natAbs
  rw [ofInt, heq]
  split
  · exact ⟨_, _, rfl, .inl rfl⟩
  · exact ⟨first, rest, rfl, .inr hfirst⟩

theorem decimalValue_concat (digits : Text) (d : CodePoint) :
    decimalValue (digits ++ [d]) = decimalValue digits * 10 + d.digitValue := by
  rw [decimalValue, List.foldl_append, List.foldl_cons, List.foldl_nil, decimalValue]

/-- The digits of a number have it as their value. -/
theorem decimalValue_ofNat (n : Nat) : decimalValue (ofNat n) = n := by
  induction n using Nat.strongRecOn with
  | ind n ih =>
    by_cases hn : n < 10
    · rw [ofNat_of_lt_ten hn]
      simp [decimalValue, CodePoint.digitValue_ofChar_digitChar hn]
    · have hlast : n % 10 < 10 := Nat.mod_lt n (by decide)
      rw [ofNat_of_ten_le (by omega), decimalValue_concat, ih (n / 10) (by omega),
        CodePoint.digitValue_ofChar_digitChar hlast]
      omega

theorem ofNat_injective : Function.Injective ofNat :=
  Function.LeftInverse.injective decimalValue_ofNat

/-- The digits of a positive number do not start with a zero. -/
theorem head?_ofNat_ne_zero {n : Nat} (hn : 0 < n) :
    (ofNat n).head? ≠ some (CodePoint.ofChar '0') := by
  induction n using Nat.strongRecOn with
  | ind n ih =>
    by_cases hten : n < 10
    · rw [ofNat_of_lt_ten hten]
      intro hhead
      have hval := congrArg CodePoint.val (Option.some.inj hhead)
      rw [CodePoint.ofChar_digitChar hten] at hval
      have hzero : (CodePoint.ofChar '0').val = 48 := rfl
      omega
    · obtain ⟨first, rest, heq⟩ := List.exists_cons_of_ne_nil (ofNat_ne_nil (n / 10))
      have hrec := ih (n / 10) (by omega) (by omega)
      rw [ofNat_of_ten_le (by omega), heq]
      rw [heq] at hrec
      exact hrec

/-- One more digit after the digits of a positive number. -/
theorem ofNat_append_digit {n : Nat} {d : CodePoint} (hn : 0 < n) (hd : d.isDigit = true) :
    ofNat n ++ [d] = ofNat (n * 10 + d.digitValue) := by
  have hlt := CodePoint.digitValue_lt_ten hd
  have hten : 10 ≤ n * 10 + d.digitValue := by omega
  have hdiv : (n * 10 + d.digitValue) / 10 = n := by omega
  have hmod : (n * 10 + d.digitValue) % 10 = d.digitValue := by omega
  rw [ofNat_of_ten_le hten, hdiv, hmod, CodePoint.ofChar_digitChar_digitValue hd]

/-- A run of digits that starts with a zero only if it is the zero is the spelling of its
value. -/
theorem ofNat_decimalValue {digits : Text} (hne : digits ≠ [])
    (hdigits : ∀ c ∈ digits, c.isDigit = true)
    (hzero : digits.head? = some (CodePoint.ofChar '0') → digits.length = 1) :
    ofNat (decimalValue digits) = digits := by
  induction digits using List.reverseRecOn with
  | nil => exact absurd rfl hne
  | append_singleton init d ih =>
    have hd : d.isDigit = true := hdigits d (by simp)
    rw [decimalValue_concat]
    by_cases hinit : init = []
    · subst hinit
      have hlt := CodePoint.digitValue_lt_ten hd
      simp [decimalValue, ofNat_of_lt_ten hlt, CodePoint.ofChar_digitChar_digitValue hd]
    · have hhead : init.head? ≠ some (CodePoint.ofChar '0') := by
        intro h
        have hlength := hzero (by rw [List.head?_append, h]; rfl)
        have hpos := List.length_pos_iff.mpr hinit
        simp only [List.length_append, List.length_singleton] at hlength
        omega
      have hread : ofNat (decimalValue init) = init :=
        ih hinit (fun c hc => hdigits c (by simp [hc])) (fun h => absurd h hhead)
      have hpositive : 0 < decimalValue init := by
        by_contra hcontra
        have hvalue : decimalValue init = 0 := by omega
        rw [hvalue] at hread
        exact hhead (by rw [← hread]; rfl)
      rw [← ofNat_append_digit hpositive hd, hread]

end Text

end AbiBindings
