import AbiBindings.Proofs.AbiType.Acceptance

/-!
Type texts with a number that is too long. A number is only read where one may stand, so such a
text goes well up to there: it could be the beginning of a type. Where the text is of a component,
all components in front of that one are without fault. If reading a text ends with the fault that
a number is too long, then it came to such a number, and to nothing else that is wrong before it.
-/

namespace AbiBindings.AbiType

open Outcome

structure LongNumber (digits : Text) : Prop where
  isDigit : ∀ c ∈ digits, c.isDigit = true
  noLeadingZero : digits.head? ≠ some (CodePoint.ofChar '0')
  long : Json.digitLimit < digits.length

inductive StartsLong : Text → Nat → Prop
  | mk {digits rest : Text} : LongNumber digits → Text.NotAhead CodePoint.isDigit rest →
      StartsLong (digits ++ rest) digits.length

mutual

/-- The text comes to a number that is too long, with so many digits, before it comes to anything
else that is wrong. -/
inductive Overlong : (components : Json) → Text → Nat → Prop
  | base {components : Json} {t : Text} {n : Nat} :
      OverlongBase components t n → Overlong components t n
  | length {components : Json} {w t : Text} {type : AbiType} {n : Nat} :
      Derives components w type → type.Supported → StartsLong t n →
      Overlong components (w ++ "[" ++ t) n

inductive OverlongBase : (components : Json) → Text → Nat → Prop
  | width {components : Json} {word t : Text} {n : Nat} : word ≠ [] →
      (∀ c ∈ word, c.isLower = true) → word ∉ ["fixed", "ufixed", "function"].map Text.ofString →
      StartsLong t n → OverlongBase components (word ++ t) n
  | list {components : Json} {t : Text} {n : Nat} : OverlongList t n →
      OverlongBase components ("(" ++ t) n
  | tuple {items : List Json} {t : Text} {n : Nat} : OverlongComponents items n →
      Text.NotAhead continuesWord t → OverlongBase (.arr items) ("tuple" ++ t) n

inductive OverlongList : Text → Nat → Prop
  | here {t : Text} {n : Nat} : Overlong .null t n → OverlongList t n
  | later {w t : Text} {type : AbiType} {n : Nat} : Derives .null w type → type.Supported →
      OverlongList t n → OverlongList (w ++ "," ++ t) n

inductive OverlongComponents : List Json → Nat → Prop
  | here {fields : List (Text × Json)} {text name : Text} {rest : List Json} {n : Nat} :
      Json.lookup fields "type" = some (.str text) →
      ComponentName (Json.lookup fields "name") name →
      Overlong (componentsOf fields) (Text.trim text) n →
      OverlongComponents (.obj fields :: rest) n
  | later {fields : List (Text × Json)} {text name : Text} {type : AbiType} {rest : List Json}
      {n : Nat} : Json.lookup fields "type" = some (.str text) →
      ComponentName (Json.lookup fields "name") name →
      Derives (componentsOf fields) (Text.trim text) type → type.Supported →
      OverlongComponents rest n → OverlongComponents (.obj fields :: rest) n

end

theorem readNumber_eq_long {number : TypeNumber} {t : Text} {n : Nat} :
    readNumber number t = .error (.integerTooLong n) ↔ StartsLong t n := by
  constructor
  · intro h
    have hsplit : t = t.takeWhile CodePoint.isDigit ++ t.dropWhile CodePoint.isDigit :=
      List.takeWhile_append_dropWhile.symm
    simp only [readNumber] at h
    split at h
    · cases h
    split at h
    · cases h
    split at h
    · next hzero hlong =>
      obtain rfl := ScanFault.integerTooLong.inj (Except.error.inj h)
      have hnumber : LongNumber (t.takeWhile CodePoint.isDigit) := by
        refine ⟨fun c => Text.of_mem_takeWhile, ?_, hlong⟩
        intro hhead
        have hmany : 1 < (t.takeWhile CodePoint.isDigit).length :=
          Nat.lt_trans (by decide) hlong
        simp [hhead, hmany] at hzero
      have hstarts := StartsLong.mk hnumber (Text.notAhead_dropWhile t)
      rwa [← hsplit] at hstarts
    · cases h
  · rintro @⟨digits, rest, hnumber, hrest⟩
    have htake := Text.takeWhile_run hnumber.isDigit hrest
    have hlong := hnumber.long
    have hzero := hnumber.noLeadingZero
    have hempty : ¬ digits.isEmpty = true := by
      rw [List.isEmpty_iff_length_eq_zero]
      omega
    simp only [readNumber, htake]
    rw [if_neg hempty, if_neg (by simp [hzero]), if_pos hlong]

theorem expect_ne_long {wanted : CodePoint} {t : Text} {n : Nat} :
    expect wanted t ≠ .error (.integerTooLong n) := by
  intro h
  cases t with
  | nil => cases h
  | cons c rest =>
    rw [expect] at h
    split at h <;> cases h

/-- Words that no binding supports are refused before the number after them. -/
theorem refusedName?_eq_none {word : Text} :
    refusedName? word = none ↔ word ∉ ["fixed", "ufixed", "function"].map Text.ofString := by
  simp only [refusedName?, List.map_cons, List.map_nil, List.mem_cons, List.not_mem_nil, or_false,
    not_or]
  grind

theorem exists_of_readSuffixes_long {count n : Nat} {item : AbiType} {t : Text}
    (h : readSuffixes count item t = .error (.integerTooLong n)) :
    ∃ w type rest, t = w ++ "[" ++ rest ∧ Suffixed item w type ∧
      (item.Supported → type.Supported) ∧ StartsLong rest n := by
  induction count generalizing item t with
  | zero => cases h
  | succ count ih =>
    cases t with
    | nil => cases h
    | cons c rest =>
      rw [readSuffixes] at h
      split at h
      · next hc =>
        subst hc
        rcases bind_eq_error.mp h with hnumber | ⟨⟨length, afterLength⟩, hnumber, h⟩
        · exact ⟨[], item, rest, rfl, .done, id, readNumber_eq_long.mp hnumber⟩
        rcases bind_eq_error.mp h with hclose | ⟨after, hclose, h⟩
        · exact absurd hclose expect_ne_long
        obtain ⟨digits, rfl, hwidth, hfits⟩ := readNumber_ok hnumber
        obtain rfl := expect_ok hclose
        cases hwidth with
        | absent =>
          obtain ⟨w, type, more, rfl, hsuffix, hsupported, hlong⟩ := ih h
          refine ⟨"[]" ++ w, type, more, rfl, .anyLength hsuffix, fun hitem => hsupported ?_, hlong⟩
          rwa [Supported]
        | @given _ m hm =>
          cases m with
          | zero => cases h
          | succ m =>
            obtain ⟨w, type, more, rfl, hsuffix, hsupported, hlong⟩ := ih h
            refine ⟨"[" ++ digits ++ "]" ++ w, type, more, ?_, .ofLength hm (by omega) hsuffix,
              fun hitem => hsupported ?_, hlong⟩
            · simp [text_leftBracket, text_rightBracket]
            · rw [Supported]
              rw [numeral_iff.mp hm] at hfits
              exact ⟨⟨m + 1, rfl, by omega, hfits⟩, hitem⟩
      · cases h

theorem overlongBase_of_readName {t : Text} {n : Nat} (components : Json)
    (h : readName t = .error (.integerTooLong n)) : OverlongBase components t n := by
  have hsplit : t = t.takeWhile CodePoint.isLower ++ t.dropWhile CodePoint.isLower :=
    List.takeWhile_append_dropWhile.symm
  simp only [readName, List.isEmpty_iff] at h
  split at h
  · cases h
  split at h
  · cases h
  next hne _ hrefused =>
    rcases bind_eq_error.mp h with hnumber | ⟨⟨width, left⟩, -, h⟩
    · rw [hsplit]
      exact .width hne (fun c => Text.of_mem_takeWhile) (refusedName?_eq_none.mp hrefused)
        (readNumber_eq_long.mp hnumber)
    · dsimp only at h
      split at h <;> cases h

section

variable {readItem : Text → Except ScanFault (AbiType × Text)}

theorem overlongList_of_readSeparated (hitem : ReadsTypes readItem)
    (hlong : ∀ t n, readItem t = .error (.integerTooLong n) → Overlong .null t n) {count n : Nat}
    {t : Text} (h : readSeparated readItem count t = .error (.integerTooLong n)) :
    OverlongList t n := by
  induction count generalizing t with
  | zero =>
    rcases bind_eq_error.mp h with hfirst | ⟨read, -, hdone⟩
    · exact .here (hlong t n hfirst)
    · cases hdone
  | succ count ih =>
    rcases bind_eq_error.mp h with hfirst | ⟨⟨type, left⟩, hfirst, h⟩
    · exact .here (hlong t n hfirst)
    cases left with
    | nil => cases h
    | cons c rest =>
      dsimp only at h
      split at h
      · next hc =>
        rcases bind_eq_error.mp h with hothers | ⟨others, -, hdone⟩
        · obtain ⟨w, rfl, hderives, hsupported⟩ := hitem _ _ _ hfirst
          have hlist := OverlongList.later hderives hsupported (ih hothers)
          rw [hc]
          simpa [text_comma] using hlist
        · cases hdone
      · cases h

theorem overlongBase_of_readBase (hitem : ReadsTypes readItem)
    (hlong : ∀ t n, readItem t = .error (.integerTooLong n) → Overlong .null t n) {n : Nat}
    {t : Text} (components : Json) (h : readBase readItem t = .error (.integerTooLong n)) :
    OverlongBase components t n := by
  cases t with
  | nil => exact overlongBase_of_readName components h
  | cons c rest =>
    rw [readBase] at h
    split at h
    · exact overlongBase_of_readName components h
    · next hc =>
      obtain rfl : c = CodePoint.ofChar '(' := by simpa using hc
      split at h
      · cases h
      rcases bind_eq_error.mp h with hlist | ⟨⟨types, after⟩, -, h⟩
      · exact .list (overlongList_of_readSeparated hitem hlong hlist)
      rcases bind_eq_error.mp h with hclose | ⟨left, -, hdone⟩
      · exact absurd hclose expect_ne_long
      · cases hdone

end

/-- A base that is read, with suffixes up to a long number. -/
theorem overlong_of_suffixes {components : Json} {b after : Text} {start : AbiType} {n : Nat}
    (hbase : DerivesBase components b start) (hsupported : start.Supported)
    (h : readSuffixes after.length start after = .error (.integerTooLong n)) :
    Overlong components (b ++ after) n := by
  obtain ⟨w, type, rest, rfl, hsuffix, htype, hlong⟩ := exists_of_readSuffixes_long h
  rw [← List.append_assoc, ← List.append_assoc]
  exact .length (.suffixed hbase hsuffix) (htype hsupported) hlong

theorem overlong_of_readInner {depth n : Nat} {t : Text}
    (h : readInner depth t = .error (.integerTooLong n)) : Overlong .null t n := by
  induction depth generalizing t n with
  | zero => cases h
  | succ depth ih =>
    rw [readInner] at h
    rcases bind_eq_error.mp h with hbase | ⟨⟨base, after⟩, hbase, hnext⟩
    · exact .base (overlongBase_of_readBase (readInner_ok depth) (fun _ _ => ih) .null hbase)
    cases base with
    | components => cases hnext
    | given start =>
      rcases readBase_ok (readInner_ok depth) hbase with
        ⟨b, given, rfl, hgiven, hsupported, hderives⟩ | ⟨-, hnone, -⟩
      · obtain rfl := Base.given.inj hgiven
        exact overlong_of_suffixes (hderives .null) hsupported hnext
      · cases hnone

theorem notAhead_of_readNumber {number : TypeNumber} {t left : Text}
    (h : readNumber number t = .ok (none, left)) :
    t = left ∧ Text.NotAhead CodePoint.isDigit left := by
  simp only [readNumber, List.isEmpty_iff] at h
  split at h
  · next hnil =>
    obtain rfl := (Prod.mk.inj (Except.ok.inj h)).2
    have hahead := Text.notAhead_dropWhile (p := CodePoint.isDigit) t
    rw [← List.takeWhile_append_dropWhile (p := CodePoint.isDigit) (l := t), hnil]
    exact ⟨rfl, hahead⟩
  split at h
  · cases h
  split at h
  · cases h
  · cases h

/-- What is left after the word `tuple` goes on neither with a letter nor with a digit. -/
theorem notAhead_of_readName {t left : Text} (h : readName t = .ok (.components, left)) :
    Text.NotAhead continuesWord left := by
  simp only [readName] at h
  split at h
  · cases h
  split at h
  · cases h
  obtain ⟨⟨width, rest⟩, hnumber, h⟩ := bind_eq_ok.mp h
  dsimp only at h
  split at h
  · next base hname =>
    obtain ⟨rfl, rfl⟩ := Prod.mk.inj (Except.ok.inj h)
    obtain ⟨_, hgiven, -⟩ | ⟨-, -, rfl⟩ := ofName_ok hname
    · cases hgiven
    obtain ⟨hrest, hdigit⟩ := notAhead_of_readNumber hnumber
    have hlower := Text.notAhead_dropWhile (p := CodePoint.isLower) t
    rw [hrest] at hlower
    cases rest with
    | nil => exact Text.notAhead_nil
    | cons c more =>
      rw [Text.notAhead_cons] at hlower hdigit ⊢
      rw [continuesWord, hlower, hdigit]
      rfl
  · cases h

theorem notAhead_of_readBase {readItem : Text → Except ScanFault (AbiType × Text)} {t left : Text}
    (h : readBase readItem t = .ok (.components, left)) : Text.NotAhead continuesWord left := by
  cases t with
  | nil =>
    rw [readBase] at h
    exact notAhead_of_readName h
  | cons c rest =>
    rw [readBase] at h
    split at h
    · exact notAhead_of_readName h
    split at h
    · cases h
    · obtain ⟨types, -, h⟩ := bind_eq_ok.mp h
      obtain ⟨after, -, h⟩ := bind_eq_ok.mp h
      cases h

structure StandsFor (components : Json) (parts : Except Fault AbiType) : Prop where
  derives : ∀ start, parts = .ok start → DerivesBase components "tuple" start ∧ start.Supported
  overlong : ∀ n, parts = .error (.integerTooLong n) →
    ∃ items, components = .arr items ∧ OverlongComponents items n

theorem readLong_of_mapError {α : Type} {x : Except ScanFault α} {text : Text}
    {path : Option Text} {n : Nat}
    (h : x.mapError (·.toFault text path) = .error (.integerTooLong n)) :
    x = .error (.integerTooLong n) := by
  obtain ⟨fault, hread, hfault⟩ := mapError_eq_error.mp h
  cases fault with
  | unsupported reason => cases hfault
  | integerTooLong digits =>
    obtain rfl := Fault.integerTooLong.inj hfault
    exact hread

theorem readSuffixes_long_of_end {text after : Text} {path : Option Text} {start : AbiType} {n : Nat}
    (h : ((readSuffixes after.length start after).mapError (·.toFault text path) >>= fun p =>
      match p.2 with
      | [] => pure p.1
      | c :: _ => .error (.unsupportedType text path
          (.unexpected c (text.length - p.2.length)))) = .error (.integerTooLong n)) :
    readSuffixes after.length start after = .error (.integerTooLong n) := by
  rcases bind_eq_error.mp h with h | ⟨⟨type, left⟩, -, h⟩
  · exact readLong_of_mapError h
  · cases left with
    | nil => cases h
    | cons c rest => cases h

theorem overlong_of_ofText {text : Text} {path : Option Text} {parts : Except Fault AbiType}
    {components : Json} {n : Nat} (hparts : StandsFor components parts)
    (h : ofText text path parts = .error (.integerTooLong n)) : Overlong components text n := by
  rw [ofText] at h
  rcases bind_eq_error.mp h with hfail | ⟨⟨base, after⟩, hread, hnext⟩
  · have hbase := readLong_of_mapError hfail
    exact .base (overlongBase_of_readBase (readInner_ok _)
      (fun _ _ => overlong_of_readInner) components hbase)
  have hbase := mapError_eq_ok.mp hread
  rcases readBase_ok (readInner_ok _) hbase with
    ⟨b, given, htext, rfl, hsupported, hderives⟩ | ⟨htext, rfl, -⟩
  · have hlong := overlong_of_suffixes (hderives components) hsupported
      (readSuffixes_long_of_end hnext)
    rwa [← htext] at hlong
  · rcases bind_eq_error.mp hnext with hfail | ⟨start, hstart, hnext⟩
    · obtain ⟨items, rfl, hitems⟩ := hparts.overlong n hfail
      rw [htext]
      exact .base (.tuple hitems (notAhead_of_readBase hbase))
    · obtain ⟨hderives, hsupported⟩ := hparts.derives start hstart
      have hlong := overlong_of_suffixes hderives hsupported (readSuffixes_long_of_end hnext)
      rwa [← htext] at hlong

mutual

theorem standsFor_ofComponents (text : Text) (path : Option Text) :
    ∀ components : Json, StandsFor components (ofComponents text path components)
  | .arr items => by
    refine ⟨fun start => ofComponents_ok (.arr items), fun n h => ⟨items, rfl, ?_⟩⟩
    rw [ofComponents] at h
    rcases bind_eq_error.mp h with hitems | ⟨parts, -, hdone⟩
    · exact overlongComponents_of_ofItems items hitems
    · cases hdone
  | .null => ⟨fun start => ofComponents_ok .null, fun n h => by cases h⟩
  | .bool value => ⟨fun start => ofComponents_ok (.bool value), fun n h => by cases h⟩
  | .int value => ⟨fun start => ofComponents_ok (.int value), fun n h => by cases h⟩
  | .float value => ⟨fun start => ofComponents_ok (.float value), fun n h => by cases h⟩
  | .str value => ⟨fun start => ofComponents_ok (.str value), fun n h => by cases h⟩
  | .obj fields => ⟨fun start => ofComponents_ok (.obj fields), fun n h => by cases h⟩

theorem overlongComponents_of_ofItems {text : Text} {path : Option Text} {index n : Nat} :
    ∀ items : List Json, ofItems text path index items = .error (.integerTooLong n) →
      OverlongComponents items n
  | [], h => by cases h
  | item :: rest, h => by
    rw [ofItems] at h
    rcases bind_eq_error.mp h with hitem | ⟨part, hitem, hnext⟩
    · exact overlongComponents_of_ofItem item hitem rest
    rcases bind_eq_error.mp hnext with hrest | ⟨others, -, hdone⟩
    · obtain ⟨fields, typeText, rfl, htext, hname, htype, hsupported⟩ := ofItem_ok item hitem
      exact .later htext hname htype hsupported (overlongComponents_of_ofItems rest hrest)
    · cases hdone

theorem overlongComponents_of_ofItem {text : Text} {path : Option Text} {index n : Nat} :
    ∀ item : Json, ofItem text path index item = .error (.integerTooLong n) →
      ∀ rest, OverlongComponents (item :: rest) n
  | .obj fields, h, rest => by
    rw [ofItem] at h
    split at h
    · next typeText htext =>
      split at h
      · cases h
      · next name hname =>
        rcases bind_eq_error.mp h with htype | ⟨type, -, hdone⟩
        · exact .here htext (componentName_ok hname)
            (overlong_of_ofText (standsFor_ofComponentsField _ _ fields) htype)
        · cases hdone
    · cases h
  | .null, h, _ | .bool _, h, _ | .int _, h, _ | .float _, h, _ | .str _, h, _ |
    .arr _, h, _ => by cases h

theorem standsFor_ofComponentsField (text : Text) (path : Option Text) :
    ∀ fields : List (Text × Json),
      StandsFor (componentsOf fields) (ofComponentsField text path fields)
  | [] => ⟨fun _ h => absurd h (by simp [ofComponentsField]),
      fun _ h => absurd h (by simp [ofComponentsField])⟩
  | (key, value) :: rest => by
    rw [ofComponentsField, componentsOf, Json.lookup]
    by_cases hkey : key = "components"
    · rw [if_pos hkey, if_pos hkey]
      exact standsFor_ofComponents text path value
    · rw [if_neg hkey, if_neg hkey]
      exact standsFor_ofComponentsField text path rest

end

end AbiBindings.AbiType
