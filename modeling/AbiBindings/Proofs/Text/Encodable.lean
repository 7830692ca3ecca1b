import AbiBindings.Client.Source
import AbiBindings.Proofs.Text.Plain
import AbiBindings.Proofs.Text.Run

/-!
Texts without surrogates. These are the ones with a UTF-8 form, and everything the program writes
on its own is one of them: literals, numbers, and quoted texts whatever they quote.
-/

namespace AbiBindings

namespace CodePoint

@[simp] theorem isSurrogate_ofChar (c : Char) : (ofChar c).isSurrogate = false := by
  have hvalid : c.toNat.isValidChar := c.valid
  have hval := val_ofChar c
  rw [Bool.eq_false_iff]
  intro hsurrogate
  simp only [Nat.isValidChar] at hvalid
  simp only [isSurrogate, Bool.and_eq_true, decide_eq_true_eq] at hsurrogate
  omega

theorem isSurrogate_of_lt {c : CodePoint} (h : c.val < 0xD800) : c.isSurrogate = false := by
  simp only [isSurrogate, Bool.and_eq_false_iff, decide_eq_false_iff_not]
  omega

theorem isSurrogate_of_isIdentifierPart {c : CodePoint} (h : c.isIdentifierPart = true) :
    c.isSurrogate = false := by
  apply isSurrogate_of_lt
  simp only [isIdentifierPart, isIdentifierStart, isUpper, isLower, isDigit, Bool.or_eq_true,
    Bool.and_eq_true, decide_eq_true_eq] at h
  omega

theorem isSurrogate_of_isHexDigit {c : CodePoint} (h : c.isHexDigit = true) :
    c.isSurrogate = false := by
  apply isSurrogate_of_lt
  simp only [isHexDigit, isDigit, Bool.or_eq_true, Bool.and_eq_true, decide_eq_true_eq] at h
  omega

/-- No surrogate is printable: all of them lie in one range of the table. -/
theorem isSurrogate_of_isPrintable {c : CodePoint} (h : c.isPrintable = true) :
    c.isSurrogate = false := by
  rw [Bool.eq_false_iff]
  intro hsurrogate
  simp only [isSurrogate, Bool.and_eq_true, decide_eq_true_eq] at hsurrogate
  have hlarge : ¬ c.val < 0x7F := by omega
  rw [isPrintable, if_neg hlarge, Bool.not_eq_true', List.any_eq_false] at h
  have hrange : (0xD7FC, 0xF8FF) ∈ unprintableRanges := by decide
  apply h _ hrange
  simp only [Bool.and_eq_true, decide_eq_true_eq]
  omega

theorem isSurrogate_hexDigit {n : Nat} (hn : n < 16) : (hexDigit n).isSurrogate = false := by
  apply isSurrogate_of_lt
  rw [hexDigit, val_ofNat (by split <;> omega)]
  split <;> omega

end CodePoint

namespace Text

/-- No code point is a surrogate. -/
def Encodable (t : Text) : Prop := ∀ c ∈ t, c.isSurrogate = false

theorem isEncodable_iff {t : Text} : isEncodable t = true ↔ Encodable t := by
  simp only [isEncodable, List.all_eq_true, Bool.not_eq_true', Encodable]

theorem unencodableFrom_eq_none {start : Nat} {t : Text} :
    unencodableFrom start t = none ↔ Encodable t := by
  induction t generalizing start with
  | nil => simp [unencodableFrom, Encodable]
  | cons c rest ih =>
    rw [unencodableFrom, Encodable, List.forall_mem_cons]
    split
    · next hsurrogate => simp [hsurrogate]
    · next hsurrogate =>
      rw [Bool.not_eq_true] at hsurrogate
      rw [ih, Encodable]
      simp [hsurrogate]

/-- Exactly the texts without surrogates have a UTF-8 form. -/
theorem exists_encode_eq_ok {t : Text} : (∃ bytes, encode t = .ok bytes) ↔ Encodable t := by
  have hnone : unencodableFrom 0 t = none ↔ Encodable t := unencodableFrom_eq_none
  rw [← hnone, encode]
  cases unencodableFrom 0 t with
  | none => simp
  | some place => simp

theorem exists_encode_eq_error {t : Text} :
    (∃ fault, encode t = .error fault) ↔ isEncodable t = false := by
  rw [← Bool.not_eq_true, isEncodable_iff, ← exists_encode_eq_ok]
  cases encode t with
  | ok bytes => simp
  | error fault => simp

section

variable {s t : Text}

@[simp] theorem encodable_nil : Encodable [] := by simp [Encodable]

@[simp] theorem encodable_cons {c : CodePoint} :
    Encodable (c :: t) ↔ c.isSurrogate = false ∧ Encodable t := List.forall_mem_cons

@[simp] theorem encodable_append : Encodable (s ++ t) ↔ Encodable s ∧ Encodable t :=
  List.forall_mem_append

theorem Encodable.of_subset (h : Encodable t) (hst : s ⊆ t) : Encodable s :=
  fun c hc => h c (hst hc)

theorem encodable_flatMap {α : Type} {f : α → Text} {items : List α} :
    Encodable (items.flatMap f) ↔ ∀ item ∈ items, Encodable (f item) := forall_mem_flatMap

theorem encodable_flatten {parts : List Text} :
    Encodable parts.flatten ↔ ∀ part ∈ parts, Encodable part := by
  rw [← List.flatMap_id]
  exact encodable_flatMap

theorem encodable_join {separator : Text} (hseparator : Encodable separator) {parts : List Text} :
    Encodable (join separator parts) ↔ ∀ part ∈ parts, Encodable part :=
  forall_mem_join hseparator

@[simp] theorem encodable_ofString (s : String) : Encodable (ofString s) := by
  intro c hc
  obtain ⟨char, -, rfl⟩ := List.mem_map.mp hc
  exact CodePoint.isSurrogate_ofChar char

theorem encodable_replicate {c : CodePoint} (hc : c.isSurrogate = false) (count : Nat) :
    Encodable (List.replicate count c) := by
  intro d hd
  rw [List.eq_of_mem_replicate hd]
  exact hc

@[simp] theorem encodable_ofNat (n : Nat) : Encodable (ofNat n) := by
  intro c hc
  obtain ⟨char, -, rfl⟩ := List.mem_map.mp hc
  exact CodePoint.isSurrogate_ofChar char

@[simp] theorem encodable_ofInt (i : Int) : Encodable (ofInt i) := by
  rw [ofInt]
  split
  · simp
  · simp

@[simp] theorem encodable_ofHex (width n : Nat) : Encodable (ofHex width n) := by
  induction width generalizing n with
  | zero => exact encodable_nil
  | succ width ih =>
    have hdigit := CodePoint.isSurrogate_hexDigit (Nat.mod_lt n (by decide : 0 < 16))
    simp [ofHex, ih, hdigit]

@[simp] theorem encodable_hexOfBytes (bytes : List UInt8) : Encodable (Hash.hexOfBytes bytes) :=
  encodable_flatMap.mpr fun byte _ => encodable_ofHex 2 byte.toNat

theorem isSurrogate_quoteMark (t : Text) : (quoteMark t).isSurrogate = false := by
  rw [quoteMark]
  split <;> rfl

theorem isSurrogate_backslash : backslash.isSurrogate = false := rfl

theorem encodable_escapeIn {mark : CodePoint} (hmark : mark.isSurrogate = false) (c : CodePoint) :
    Encodable (escapeIn mark c) := by
  rw [escapeIn]
  split
  · next hspecial =>
    rcases hspecial with rfl | rfl
    · simp [isSurrogate_backslash]
    · simp [isSurrogate_backslash, hmark]
  split
  · simp
  split
  · simp
  split
  · simp
  split
  · next hprintable => simp [CodePoint.isSurrogate_of_isPrintable hprintable]
  split
  · simp
  split
  · simp
  · simp

/-- A literal has a UTF-8 form even if it quotes a surrogate, which it shows by number. -/
@[simp] theorem encodable_quotedBody (t : Text) : Encodable (quotedBody t) :=
  encodable_flatMap.mpr fun c _ => encodable_escapeIn (isSurrogate_quoteMark t) c

@[simp] theorem encodable_quoted (t : Text) : Encodable (quoted t) := by
  simp [quoted, isSurrogate_quoteMark]

end

end Text

end AbiBindings
