import AbiBindings.Proofs.AbiType.Grammar
import AbiBindings.Proofs.Outcome
import AbiBindings.Proofs.Text.Classes

/-!
Reading the leaves of a type text: numbers, single code points, and words with their widths. For
each of these readers there are two statements. What it takes off the text is what the grammar
says, and it takes that off whenever the text after it does not go on with the same class.
-/

namespace AbiBindings.AbiType

theorem text_comma : ("," : Text) = [CodePoint.ofChar ','] := rfl

theorem text_leftParen : ("(" : Text) = [CodePoint.ofChar '('] := rfl

theorem text_rightParen : (")" : Text) = [CodePoint.ofChar ')'] := rfl

theorem text_leftBracket : ("[" : Text) = [CodePoint.ofChar '['] := rfl

theorem text_rightBracket : ("]" : Text) = [CodePoint.ofChar ']'] := rfl

theorem text_brackets : ("[]" : Text) = [CodePoint.ofChar '[', CodePoint.ofChar ']'] := rfl

def continuesWord (c : CodePoint) : Bool := c.isLower || c.isDigit

def continuesType (c : CodePoint) : Bool := continuesWord c || c == CodePoint.ofChar '['

theorem expect_cons (c : CodePoint) (rest : Text) : expect c (c :: rest) = .ok rest := by
  simp [expect]

theorem expect_ok {wanted : CodePoint} {t left : Text} (h : expect wanted t = .ok left) :
    t = wanted :: left := by
  cases t with
  | nil => simp [expect] at h
  | cons c rest =>
    rw [expect] at h
    split at h
    · next hc =>
      rw [hc, Except.ok.inj h]
    · cases h

theorem WidthText.notAhead_isLower {digits rest : Text} {width : Option Nat}
    (h : WidthText digits width) (hrest : Text.NotAhead continuesWord rest) :
    Text.NotAhead CodePoint.isLower (digits ++ rest) := by
  cases digits with
  | nil => exact hrest.mono fun c hc => by simp [continuesWord, hc]
  | cons d more =>
    exact Text.notAhead_cons.mpr (CodePoint.isLower_of_isDigit (h.isDigit d (by simp)))

/-- What is read as a number is the digits at the start of the text. -/
theorem readNumber_ok {number : TypeNumber} {t left : Text} {width : Option Nat}
    (h : readNumber number t = .ok (width, left)) :
    ∃ digits, t = digits ++ left ∧ WidthText digits width ∧
      digits.length ≤ Json.digitLimit := by
  have hsplit : t = t.takeWhile CodePoint.isDigit ++ t.dropWhile CodePoint.isDigit :=
    List.takeWhile_append_dropWhile.symm
  simp only [readNumber, List.isEmpty_iff] at h
  split at h
  · next hnil =>
    obtain ⟨rfl, rfl⟩ := Prod.mk.inj (Except.ok.inj h)
    exact ⟨[], rfl, .absent, Nat.zero_le _⟩
  · next hne =>
    split at h
    · cases h
    · next hzero =>
      split at h
      · cases h
      · next hfits =>
        obtain ⟨rfl, rfl⟩ := Prod.mk.inj (Except.ok.inj h)
        refine ⟨t.takeWhile CodePoint.isDigit, hsplit, .given ⟨hne, ?_, ?_, rfl⟩, by omega⟩
        · exact fun c => Text.of_mem_takeWhile
        · intro hhead
          have hpos := List.length_pos_iff.mpr hne
          simp [hhead] at hzero
          omega

/-- A number that the rest does not continue is read as it is. -/
theorem readNumber_widthText {number : TypeNumber} {digits rest : Text} {width : Option Nat}
    (h : WidthText digits width) (hfits : digits.length ≤ Json.digitLimit)
    (hrest : Text.NotAhead CodePoint.isDigit rest) :
    readNumber number (digits ++ rest) = .ok (width, rest) := by
  have htake := Text.takeWhile_run h.isDigit hrest
  have hdrop := Text.dropWhile_run h.isDigit hrest
  rw [readNumber, htake, hdrop]
  cases h with
  | absent => rfl
  | given hn =>
    have hempty : digits.isEmpty = false := by simpa using hn.ne_nil
    have hzero : (decide (1 < digits.length) &&
        digits.head? == some (CodePoint.ofChar '0')) = false := by
      by_cases hhead : digits.head? = some (CodePoint.ofChar '0')
      · simp [hn.noLeadingZero hhead]
      · simp [hhead]
    simp [hempty, hzero, hn.value, Nat.not_lt.mpr hfits]

/-- A word and a width stand for the elementary type that they name, or for components, which only
the word `tuple` alone does. -/
theorem ofName_ok {word : Text} {width : Option Nat} {base : Base}
    (h : ofName word width = .ok base) :
    (∃ kind, base = .given (elementary kind) ∧ Named word width kind) ∨
      (base = .components ∧ word = "tuple" ∧ width = none) := by
  dsimp only [ofName] at h
  by_cases huint : word = "uint"
  · rw [if_pos huint] at h
    split at h
    · next hbits =>
      cases h
      exact .inl ⟨_, rfl, huint ▸ .uint hbits⟩
    · cases h
  rw [if_neg huint] at h
  by_cases hint : word = "int"
  · rw [if_pos hint] at h
    split at h
    · next hbits =>
      cases h
      exact .inl ⟨_, rfl, hint ▸ .int hbits⟩
    · cases h
  rw [if_neg hint] at h
  by_cases hbytes : word = "bytes"
  · rw [if_pos hbytes] at h
    cases width with
    | none =>
      cases h
      exact .inl ⟨_, rfl, hbytes ▸ .bytes⟩
    | some size =>
      dsimp only at h
      split at h
      · next hsize =>
        cases h
        exact .inl ⟨_, rfl, hbytes ▸ .fixedBytes hsize.1 hsize.2⟩
      · cases h
  rw [if_neg hbytes] at h
  cases width with
  | some n =>
    -- no other word takes a width, whichever it is
    simp only [ite_self] at h
    cases h
  | none =>
    dsimp only at h
    by_cases haddress : word = "address"
    · rw [if_pos haddress] at h
      cases h
      exact .inl ⟨_, rfl, haddress ▸ .address⟩
    rw [if_neg haddress] at h
    by_cases hbool : word = "bool"
    · rw [if_pos hbool] at h
      cases h
      exact .inl ⟨_, rfl, hbool ▸ .bool⟩
    rw [if_neg hbool] at h
    by_cases hstring : word = "string"
    · rw [if_pos hstring] at h
      cases h
      exact .inl ⟨_, rfl, hstring ▸ .string⟩
    rw [if_neg hstring] at h
    by_cases hbyte : word = "byte"
    · rw [if_pos hbyte] at h
      cases h
      exact .inl ⟨_, rfl, hbyte ▸ .byte⟩
    rw [if_neg hbyte] at h
    split at h
    · next htuple =>
      cases h
      exact .inr ⟨rfl, htuple, rfl⟩
    · cases h

theorem Named.ofName {word : Text} {width : Option Nat} {kind : Elementary}
    (h : Named word width kind) : AbiType.ofName word width = .ok (.given (elementary kind)) := by
  cases h with
  | uint hbits =>
    dsimp only [AbiType.ofName]
    rw [if_pos rfl, if_pos ⟨hbits.1, hbits.2⟩]
  | int hbits =>
    dsimp only [AbiType.ofName]
    rw [if_neg (by decide), if_pos rfl, if_pos ⟨hbits.1, hbits.2⟩]
  | fixedBytes hpos hle =>
    dsimp only [AbiType.ofName]
    rw [if_neg (by decide), if_neg (by decide), if_pos rfl, if_pos ⟨hpos, hle⟩]
  | bytes => rfl
  | byte => rfl
  | address => rfl
  | bool => rfl
  | string => rfl

/-- A word and a width name one type. -/
theorem Named.unique {word : Text} {width : Option Nat} {kind kind' : Elementary}
    (h : Named word width kind) (h' : Named word width kind') : kind = kind' := by
  have hread := h.ofName
  have hread' := h'.ofName
  simpa using hread.symm.trans hread'

/-- The width in a name has few digits. -/
theorem Named.length_le {word digits : Text} {width : Option Nat} {kind : Elementary}
    (h : Named word width kind) (hwidth : WidthText digits width) :
    digits.length ≤ Json.digitLimit := by
  cases hwidth with
  | absent => exact Nat.zero_le _
  | @given _ n hn =>
    have hle : n ≤ 256 := by
      cases h with
      | uint hbits => exact hbits.2.2
      | int hbits => exact hbits.2.2
      | fixedBytes _ hle => omega
    rw [numeral_iff.mp hn, Text.ofNat, List.length_map]
    have hthree : (Nat.toDigits 10 n).length ≤ 3 :=
      (Nat.length_toDigits_le_iff (by decide) (by decide)).mpr (by omega)
    exact Nat.le_trans hthree (by decide)

theorem Named.refusedName? {word : Text} {width : Option Nat} {kind : Elementary}
    (h : Named word width kind) : AbiType.refusedName? word = none := by
  cases h <;> rfl

/-- What is read as a name is a word with its width, or the word `tuple`. -/
theorem readName_ok {t left : Text} {base : Base} (h : readName t = .ok (base, left)) :
    (∃ word digits width kind, t = word ++ digits ++ left ∧ Named word width kind ∧
      WidthText digits width ∧ base = .given (elementary kind)) ∨
    (t = "tuple" ++ left ∧ base = .components ∧ t.takeWhile CodePoint.isLower = "tuple") := by
  have hsplit : t = t.takeWhile CodePoint.isLower ++ t.dropWhile CodePoint.isLower :=
    List.takeWhile_append_dropWhile.symm
  simp only [readName] at h
  split at h
  · cases h
  split at h
  · cases h
  obtain ⟨⟨width, rest⟩, hnumber, h⟩ := Outcome.bind_eq_ok.mp h
  obtain ⟨digits, hrest, hwidth, -⟩ := readNumber_ok hnumber
  dsimp only at h
  split at h
  · next hname =>
    obtain ⟨rfl, rfl⟩ := Prod.mk.inj (Except.ok.inj h)
    obtain ⟨kind, rfl, hnamed⟩ | ⟨rfl, hword, rfl⟩ := ofName_ok hname
    · refine .inl ⟨_, digits, width, kind, ?_, hnamed, hwidth, rfl⟩
      rw [List.append_assoc, ← hrest, ← hsplit]
    · cases hwidth
      refine .inr ⟨?_, rfl, hword⟩
      rw [hword, hrest] at hsplit
      exact hsplit
  · cases h

/-- A word with its width is read as the type that they name. -/
theorem readName_named {word digits rest : Text} {width : Option Nat} {kind : Elementary}
    (h : Named word width kind) (hwidth : WidthText digits width)
    (hrest : Text.NotAhead continuesWord rest) :
    readName (word ++ digits ++ rest) = .ok (.given (elementary kind), rest) := by
  have hlower := hwidth.notAhead_isLower hrest
  have hdigit : Text.NotAhead CodePoint.isDigit rest :=
    hrest.mono fun c hc => by simp [continuesWord, hc]
  have hempty : word.isEmpty = false := by simpa using h.isLower.1
  have hname := h.ofName
  rw [List.append_assoc]
  simp [readName, Text.takeWhile_run h.isLower.2 hlower,
    Text.dropWhile_run h.isLower.2 hlower, hempty, h.refusedName?,
    readNumber_widthText hwidth (h.length_le hwidth) hdigit, hname]

theorem readName_tuple {rest : Text} (hrest : Text.NotAhead continuesWord rest) :
    readName ("tuple" ++ rest) = .ok (.components, rest) := by
  have hword : ∀ c ∈ ("tuple" : Text), c.isLower = true := by decide
  have hlower : Text.NotAhead CodePoint.isLower rest :=
    hrest.mono fun c hc => by simp [continuesWord, hc]
  have hdigit : Text.NotAhead CodePoint.isDigit rest :=
    hrest.mono fun c hc => by simp [continuesWord, hc]
  have hnumber : readNumber .width rest = .ok (none, rest) :=
    readNumber_widthText .absent (Nat.zero_le _) hdigit
  have hempty : ("tuple" : Text).isEmpty = false := rfl
  have hname : ofName "tuple" none = .ok .components := rfl
  have haccepted : refusedName? "tuple" = none := rfl
  simp [readName, Text.takeWhile_run hword hlower, Text.dropWhile_run hword hlower, hempty,
    haccepted, hnumber, hname]

end AbiBindings.AbiType
