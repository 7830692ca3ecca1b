import AbiBindings.Json.Reader
import AbiBindings.Proofs.Json.Sorted
import AbiBindings.Proofs.Outcome
import AbiBindings.Proofs.Text.Decimal
import AbiBindings.Proofs.Text.Hexadecimal
import AbiBindings.Proofs.Text.Run

/-!
Reading the tokens that were written: strings with their escapes, integers and words, and the
blanks between them. Each is read whole whatever follows, except that an integer must not be
continued.
-/

namespace AbiBindings.Json

open Outcome
open Text (NotAhead)

/-- A code point is written as an escape by letter, as a control by number, or as it is. -/
theorem escapeOne_cases (c : CodePoint) :
    (∃ e, e ≠ CodePoint.ofChar 'u' ∧ unescapeLetter? e = some c ∧
      escapeOne c = [CodePoint.ofChar '\\', e]) ∨
    (c.val < 0x20 ∧ escapeOne c = "\\u" ++ Text.ofHex 4 c.val) ∨
    (c ≠ CodePoint.ofChar '"' ∧ c ≠ CodePoint.ofChar '\\' ∧ ¬ c.val < 0x20 ∧
      escapeOne c = [c]) := by
  rw [escapeOne]
  by_cases hquote : c = CodePoint.ofChar '"'
  · rw [if_pos hquote]
    exact .inl ⟨CodePoint.ofChar '"', by decide, by rw [hquote]; rfl, rfl⟩
  rw [if_neg hquote]
  by_cases hbackslash : c = CodePoint.ofChar '\\'
  · rw [if_pos hbackslash]
    exact .inl ⟨CodePoint.ofChar '\\', by decide, by rw [hbackslash]; rfl, rfl⟩
  rw [if_neg hbackslash]
  by_cases hline : c = CodePoint.ofChar '\n'
  · rw [if_pos hline]
    exact .inl ⟨CodePoint.ofChar 'n', by decide, by rw [hline]; rfl, rfl⟩
  rw [if_neg hline]
  by_cases hreturn : c = CodePoint.ofChar '\r'
  · rw [if_pos hreturn]
    exact .inl ⟨CodePoint.ofChar 'r', by decide, by rw [hreturn]; rfl, rfl⟩
  rw [if_neg hreturn]
  by_cases htab : c = CodePoint.ofChar '\t'
  · rw [if_pos htab]
    exact .inl ⟨CodePoint.ofChar 't', by decide, by rw [htab]; rfl, rfl⟩
  rw [if_neg htab]
  by_cases hbackspace : c.val = 8
  · have hcode : c = CodePoint.ofNat 8 := CodePoint.ext hbackspace
    rw [if_pos hbackspace]
    exact .inl ⟨CodePoint.ofChar 'b', by decide, by rw [hcode]; rfl, rfl⟩
  rw [if_neg hbackspace]
  by_cases hfeed : c.val = 12
  · have hcode : c = CodePoint.ofNat 12 := CodePoint.ext hfeed
    rw [if_pos hfeed]
    exact .inl ⟨CodePoint.ofChar 'f', by decide, by rw [hcode]; rfl, rfl⟩
  rw [if_neg hfeed]
  by_cases hcontrol : c.val < 0x20
  · rw [if_pos hcontrol]
    exact .inr (.inl ⟨hcontrol, rfl⟩)
  · rw [if_neg hcontrol]
    exact .inr (.inr ⟨hquote, hbackslash, hcontrol, rfl⟩)

theorem unescapeNumber?_ofHex {c h₁ h₂ h₃ h₄ : CodePoint} (hc : c.val < 16 ^ 4)
    (h : Text.ofHex 4 c.val = [h₁, h₂, h₃, h₄]) : unescapeNumber? h₁ h₂ h₃ h₄ = some c := by
  have hhex : ∀ d ∈ [h₁, h₂, h₃, h₄], d.isHexDigit = true := by
    rw [← h]
    exact fun d hd => Text.isHexDigit_of_mem_ofHex hd
  have hvalue : Text.hexValue [h₁, h₂, h₃, h₄] = c.val := by
    rw [← h]
    exact Text.hexValue_ofHex hc
  simp only [List.forall_mem_cons] at hhex
  rw [unescapeNumber?, hhex.1, hhex.2.1, hhex.2.2.1, hhex.2.2.2.1, hvalue]
  exact congrArg some (CodePoint.ext (CodePoint.val_ofNat c.lt))

/-- A control joins nothing, since it is no surrogate. -/
theorem joinEscape_control {c : CodePoint} (hc : c.val < 0x20) (escaped : Bool) (read : Text) :
    joinEscape c escaped read = c :: read := by
  have hhigh : c.isHighSurrogate = false := by
    simp only [CodePoint.isHighSurrogate, Bool.and_eq_false_iff, decide_eq_false_iff_not]
    omega
  cases read with
  | nil => rfl
  | cons d rest => simp [joinEscape, hhigh]

section

variable {whole more read left : Text}

/-- The escape of a code point is read as this code point. -/
theorem readString_escapeOne (c : CodePoint) (hmore : more ≠ [])
    (h : readString whole more = .ok (read, left)) :
    readString whole (escapeOne c ++ more) = .ok (c :: read, left) := by
  have hquote : CodePoint.ofChar '\\' ≠ CodePoint.ofChar '"' := by decide
  obtain ⟨e, he, hcode, heq⟩ | ⟨hcontrol, heq⟩ | ⟨hc, hbackslash, hcontrol, heq⟩ :=
    escapeOne_cases c
  · rw [heq, List.cons_append, List.singleton_append, readString.eq_def]
    simp only [hquote, he, if_true, if_false, hcode, h, ok_bind, pure_eq_ok]
  · obtain ⟨h₁, h₂, h₃, h₄, hdigits⟩ :
        ∃ h₁ h₂ h₃ h₄, Text.ofHex 4 c.val = [h₁, h₂, h₃, h₄] := ⟨_, _, _, _, rfl⟩
    have hcode := unescapeNumber?_ofHex (by omega) hdigits
    have htext : escapeOne c ++ more = CodePoint.ofChar '\\' :: CodePoint.ofChar 'u' ::
        h₁ :: h₂ :: h₃ :: h₄ :: more := by
      rw [heq, hdigits]
      rfl
    have hsome : more.isEmpty = false := by rwa [List.isEmpty_eq_false_iff]
    rw [htext, readString.eq_def]
    simp only [hquote, if_true, if_false, hsome, hcode, h, ok_bind, pure_eq_ok,
      joinEscape_control hcontrol, Bool.false_eq_true]
  · rw [heq, List.singleton_append, readString.eq_def]
    simp only [hc, hbackslash, hcontrol, if_false, h, ok_bind, pure_eq_ok]

/-- A string is read up to its closing quote. -/
theorem readString_flatMap (t rest : Text) :
    readString whole (t.flatMap escapeOne ++ CodePoint.ofChar '"' :: rest) = .ok (t, rest) := by
  induction t with
  | nil =>
    rw [List.flatMap_nil, List.nil_append, readString.eq_def]
    simp only [if_true]
  | cons c t ih =>
    rw [List.flatMap_cons, List.append_assoc]
    exact readString_escapeOne c (by simp) ih

end

def isNumberPart (c : CodePoint) : Bool :=
  c.isDigit || c == CodePoint.ofChar '.' || c == CodePoint.ofChar 'e' || c == CodePoint.ofChar 'E'

section

variable {rest : Text}

theorem wholeDigits_ofNat (n : Nat) (h : NotAhead isNumberPart rest) :
    wholeDigits (Text.ofNat n ++ rest) = Text.ofNat n := by
  have hrest : NotAhead CodePoint.isDigit rest := h.mono fun c hc => by simp [isNumberPart, hc]
  have hrun := Text.takeWhile_run (fun c hc => Text.isDigit_of_mem_ofNat (n := n) hc) hrest
  by_cases hn : n = 0
  · subst hn
    rfl
  · have hhead := Text.head?_ofNat_ne_zero (Nat.pos_of_ne_zero hn)
    cases hdigits : Text.ofNat n with
    | nil => exact absurd hdigits (Text.ofNat_ne_nil n)
    | cons d digits =>
      rw [hdigits] at hhead hrun
      have hd : d ≠ CodePoint.ofChar '0' := fun hd => hhead (by rw [hd]; rfl)
      rw [List.cons_append, wholeDigits, if_neg hd]
      exact hrun

theorem fractionDigits_eq_nil (h : NotAhead isNumberPart rest) : fractionDigits rest = [] := by
  cases rest with
  | nil => rfl
  | cons c rest =>
    have hc : c ≠ CodePoint.ofChar '.' := by
      rintro rfl
      exact absurd h (by simp [isNumberPart])
    rw [fractionDigits, if_neg hc]

theorem exponentPart_eq_none (h : NotAhead isNumberPart rest) : exponentPart rest = none := by
  cases rest with
  | nil => rfl
  | cons c rest =>
    have hc : ¬ (c = CodePoint.ofChar 'e' ∨ c = CodePoint.ofChar 'E') := by
      rintro (rfl | rfl)
      · exact absurd h (by simp [isNumberPart])
      · exact absurd h (by simp [isNumberPart])
    rw [exponentPart, if_neg hc]

/-- An integer is read as it is, unless it has more digits than the limit allows. -/
theorem readNumber_ofInt {limit : Option Nat} {value : Int} (hvalue : (int value).Plain limit)
    (h : NotAhead isNumberPart rest) :
    readNumber limit (Text.ofInt value ++ rest) = .ok (.int value, rest) := by
  have hlimit : limit.any (· < (Text.ofNat value.natAbs).length) = false := by
    cases limit with
    | none => rfl
    | some bound => simpa using plain_int.mp hvalue bound rfl
  have hsome : (Text.ofNat value.natAbs).isEmpty = false := by
    rw [List.isEmpty_eq_false_iff]
    exact Text.ofNat_ne_nil _
  have hwhole := wholeDigits_ofNat value.natAbs h
  have hdrop : (Text.ofNat value.natAbs ++ rest).drop (Text.ofNat value.natAbs).length = rest :=
    List.drop_left
  rw [Text.ofInt]
  split
  · next hnegative =>
    have hback : -(value.natAbs : Int) = value := by omega
    have hsign : ((CodePoint.ofChar '-' :: (Text.ofNat value.natAbs ++ rest)).head? == some '-') =
        true := rfl
    rw [List.cons_append, readNumber]
    simp only [hsign, if_true, List.drop_succ_cons, List.drop_zero, hwhole, hdrop, hsome,
      fractionDigits_eq_nil h, List.isEmpty_nil, exponentPart_eq_none h, hlimit,
      Bool.false_eq_true, if_false, Text.decimalValue_ofNat, hback]
  · next hnonnegative =>
    have hback : (value.natAbs : Int) = value := by omega
    have hsign : ((Text.ofNat value.natAbs ++ rest).head? == some '-') = false := by
      obtain ⟨d, digits, heq, hd⟩ := Text.exists_ofNat_eq_cons value.natAbs
      rw [heq, List.cons_append, List.head?_cons, beq_eq_false_iff_ne]
      rintro ⟨⟩
      exact absurd hd (by decide)
    rw [readNumber]
    simp only [hsign, if_true, hwhole, hdrop, hsome, fractionDigits_eq_nil h, List.isEmpty_nil,
      exponentPart_eq_none h, hlimit, Bool.false_eq_true, if_false, Text.decimalValue_ofNat, hback]

/-- No word starts like an integer: none has a digit first or after a sign. -/
theorem find?_words_ofInt (value : Int) (rest : Text) :
    (words.find? fun word => Text.startsWith (Text.ofInt value ++ rest) word.1) = none := by
  have hlong : ∀ word ∈ words, 1 < word.1.length := by decide
  have hwords : ∀ word ∈ words, ∀ before ∈ ([[], [CodePoint.ofChar '-']] : List Text),
      ∀ c ∈ (word.1.drop before.length).head?, c.isDigit = false := by decide
  obtain ⟨d, digits, heq, hd⟩ := Text.exists_ofNat_eq_cons value.natAbs
  obtain ⟨before, hbefore, hshort, htext⟩ :
      ∃ before ∈ ([[], [CodePoint.ofChar '-']] : List Text), before.length ≤ 1 ∧
        Text.ofInt value ++ rest = before ++ d :: (digits ++ rest) := by
    rw [Text.ofInt, heq]
    split
    · exact ⟨[CodePoint.ofChar '-'], by simp, by simp, rfl⟩
    · exact ⟨[], by simp, by simp, rfl⟩
  rw [List.find?_eq_none]
  intro word hword hstart
  rw [Text.startsWith, htext, List.isPrefixOf_iff_prefix] at hstart
  have hlength := hlong word hword
  obtain ⟨after, hafter⟩ : before <+: word.1 :=
    List.prefix_of_prefix_length_le (List.prefix_append _ _) hstart (by omega)
  have hdigit := hwords word hword before hbefore
  rw [← hafter, List.drop_left] at hdigit
  rw [← hafter, List.prefix_append_right_inj] at hstart
  cases after with
  | nil =>
    rw [← hafter, List.append_nil] at hlength
    omega
  | cons c after =>
    have hc : c = d := (List.cons_prefix_cons.mp hstart).1
    have hfalse := hdigit c rfl
    rw [hc, hd] at hfalse
    cases hfalse

theorem readScalar_ofInt {limit : Option Nat} {value : Int} (hvalue : (int value).Plain limit)
    (h : NotAhead isNumberPart rest) :
    readScalar limit (Text.ofInt value ++ rest) = .ok (.int value, rest) := by
  rw [readScalar, find?_words_ofInt]
  exact readNumber_ofInt hvalue h

end

section

variable (style : Style) {t : Text}

theorem skipBlanks_eq_self (h : NotAhead isTokenBlank t) : skipBlanks t = t :=
  Text.dropWhile_eq_self h

theorem skipBlanks_lineBreak (level : Nat) (h : NotAhead isTokenBlank t) :
    skipBlanks (style.lineBreak level ++ t) = t := by
  apply Text.dropWhile_run _ h
  intro c hc
  cases style with
  | compact => exact absurd hc List.not_mem_nil
  | indented width =>
    rcases List.mem_cons.mp hc with rfl | hc
    · decide
    · rw [List.eq_of_mem_replicate hc]
      decide

/-- Neither a line break nor what closes a list continues a number. -/
theorem notAhead_lineBreak (level : Nat) (h : NotAhead isNumberPart t) :
    NotAhead isNumberPart (style.lineBreak level ++ t) := by
  cases style with
  | compact => exact h
  | indented width => exact Text.notAhead_cons.mpr (by decide)

end

end AbiBindings.Json
