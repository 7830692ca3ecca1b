import AbiBindings.Proofs.AbiType.Overlong
import AbiBindings.Proofs.AbiType.Refusal
import AbiBindings.Proofs.Binding.Sharing

/-!
Reading a type text always ends in one of three ways: with a type, which then has a binding; with
the fault that the type is not supported; or with the fault that a number is too long. The third
comes about exactly if reading comes to such a number before it comes to anything else that is
wrong.
-/

namespace AbiBindings.AbiType

open Outcome

theorem readSuffixes_long {item type : AbiType} {w t : Text} {count n : Nat}
    (h : Suffixed item w type) (htype : type.Supported) (hcount : w.length < count)
    (hlong : StartsLong t n) :
    readSuffixes count item (w ++ ("[" ++ t)) = .error (.integerTooLong n) := by
  induction h generalizing count with
  | done =>
    obtain ⟨k, rfl⟩ : ∃ k, count = k + 1 := ⟨count - 1, by omega⟩
    rw [List.nil_append, text_leftBracket, List.singleton_append, readSuffixes, if_pos rfl,
      readNumber_eq_long.mpr hlong, error_bind]
  | @anyLength item type w _ ih =>
    simp only [text_brackets, List.length_append, List.length_cons] at hcount
    obtain ⟨k, rfl⟩ : ∃ k, count = k + 1 := ⟨count - 1, by omega⟩
    rw [List.append_assoc, readSuffixes_anyLength]
    exact ih htype (by omega)
  | @ofLength item type digits w m hm hpos hsuffix ih =>
    simp only [text_leftBracket, List.length_append, List.length_cons] at hcount
    obtain ⟨k, rfl⟩ : ∃ k, count = k + 1 := ⟨count - 1, by omega⟩
    have harray := hsuffix.supported_item htype
    rw [Supported] at harray
    obtain ⟨length, hlength, hfits⟩ := harray.1
    obtain rfl : m = length := Int.ofNat.inj hlength
    have hassoc : "[" ++ digits ++ "]" ++ w ++ ("[" ++ t) =
        "[" ++ (digits ++ ("]" ++ (w ++ ("[" ++ t)))) := by simp only [List.append_assoc]
    rw [hassoc, readSuffixes_ofLength hm hfits]
    exact ih htype (by omega)

/-- Reading the base at the start of a text comes to a long number, in the text or in what the
word `tuple` stands for. -/
def StopsBase (components : Json) (depth : Nat) (t : Text) (n : Nat) : Prop :=
  readBase (readInner depth) t = .error (.integerTooLong n) ∨
    ∃ rest, readBase (readInner depth) t = .ok (.components, rest) ∧
      ∀ text path, ofComponents text path components = .error (.integerTooLong n)

/-- Reading the type at the start of a text comes to a long number, in the base or after it. -/
def StopsType (components : Json) (depth : Nat) (t : Text) (n : Nat) : Prop :=
  StopsBase components depth t n ∨
    ∃ start after, ReadsBase components depth t start after ∧
      readSuffixes after.length start after = .error (.integerTooLong n)

theorem StopsType.readInner {depth n : Nat} {t : Text} (h : StopsType .null depth t n) :
    AbiType.readInner (depth + 1) t = .error (.integerTooLong n) := by
  rw [AbiType.readInner]
  rcases h with (hbase | ⟨rest, -, hparts⟩) | ⟨start, after, ⟨base, hbase, hstart⟩, hsuffixes⟩
  · rw [hbase, error_bind]
  · cases hparts [] none
  · rcases hstart with rfl | ⟨-, hparts⟩
    · rw [hbase, ok_bind]
      exact hsuffixes
    · simpa [ofComponents] using hparts [] none

theorem StopsType.ofText {components : Json} {text : Text} {n : Nat}
    (h : StopsType components text.length text n) (path : Option Text) :
    AbiType.ofText text path (ofComponents text path components) =
      .error (.integerTooLong n) := by
  rw [AbiType.ofText]
  rcases h with (hbase | ⟨rest, hbase, hparts⟩) |
    ⟨start, after, ⟨base, hbase, hstart⟩, hsuffixes⟩
  · rw [hbase]
    rfl
  · rw [hbase, hparts text path]
    rfl
  · rw [hbase]
    rcases hstart with rfl | ⟨rfl, hparts⟩
    · change (AbiType.readSuffixes _ _ _).mapError _ >>= _ = _
      rw [hsuffixes]
      rfl
    · rw [hparts text path]
      change (AbiType.readSuffixes _ _ _).mapError _ >>= _ = _
      rw [hsuffixes]
      rfl

theorem Overlong.start {components : Json} {t : Text} {n : Nat} (h : Overlong components t n) :
    ∃ c rest, t = c :: rest ∧ (c = CodePoint.ofChar '(' ∨ c.isLower = true) := by
  cases h with
  | base hbase =>
    cases hbase with
    | width hne hlower _ _ =>
      obtain ⟨c, more, rfl⟩ := List.exists_cons_of_ne_nil hne
      exact ⟨c, _, rfl, .inr (hlower c List.mem_cons_self)⟩
    | list _ => exact ⟨_, _, rfl, .inl rfl⟩
    | tuple _ _ => exact ⟨_, _, rfl, .inr (by decide)⟩
  | length htype _ _ =>
    obtain ⟨c, more, rfl, hc⟩ := htype.start
    exact ⟨c, _, rfl, hc⟩

theorem OverlongList.start {t : Text} {n : Nat} (h : OverlongList t n) :
    ∃ c rest, t = c :: rest ∧ (c = CodePoint.ofChar '(' ∨ c.isLower = true) := by
  cases h with
  | here htype => exact htype.start
  | later htype _ _ =>
    obtain ⟨c, more, rfl, hc⟩ := htype.start
    exact ⟨c, _, rfl, hc⟩

theorem StartsLong.notAhead_isLower {t : Text} {n : Nat} (h : StartsLong t n) :
    Text.NotAhead CodePoint.isLower t := by
  obtain @⟨digits, rest, hnumber, hrest⟩ := h
  cases digits with
  | nil => exact absurd hnumber.long (Nat.not_lt_zero _)
  | cons d more =>
    have hd := hnumber.isDigit d List.mem_cons_self
    exact Text.notAhead_cons.mpr (CodePoint.isLower_of_isDigit hd)

theorem readName_long {word t : Text} {n : Nat} (hne : word ≠ [])
    (hlower : ∀ c ∈ word, c.isLower = true)
    (haccepted : word ∉ ["fixed", "ufixed", "function"].map Text.ofString)
    (hlong : StartsLong t n) : readName (word ++ t) = .error (.integerTooLong n) := by
  have hempty : ¬ word.isEmpty = true := by simpa using hne
  rw [readName, Text.takeWhile_run hlower hlong.notAhead_isLower,
    Text.dropWhile_run hlower hlong.notAhead_isLower, if_neg hempty,
    refusedName?_eq_none.mpr haccepted]
  dsimp only
  rw [readNumber_eq_long.mpr hlong, error_bind]

mutual

theorem Overlong.stops {components : Json} {t : Text} {n : Nat} :
    Overlong components t n → ∀ {depth : Nat}, t.length ≤ depth + 1 →
      StopsType components depth t n
  | .base hbase, depth, hdepth => .inl (OverlongBase.stops hbase hdepth)
  | .length (t := t) (.suffixed (b := b) (s := s) hbase hsuffix) htype hlong, depth, hdepth => by
    have hassoc : b ++ s ++ "[" ++ t = b ++ (s ++ ("[" ++ t)) := by simp only [List.append_assoc]
    rw [hassoc] at hdepth ⊢
    rw [List.length_append] at hdepth
    have hafter : Text.NotAhead continuesWord (s ++ ("[" ++ t)) :=
      notAhead_append hsuffix.notAhead_continuesWord rfl
    refine .inr ⟨_, _, hbase.reads (hsuffix.supported_item htype) (by omega) hafter, ?_⟩
    apply readSuffixes_long hsuffix htype _ hlong
    simp [text_leftBracket]
termination_by structural h => h

theorem OverlongBase.stops {components : Json} {t : Text} {n : Nat} :
    OverlongBase components t n → ∀ {depth : Nat}, t.length ≤ depth + 1 →
      StopsBase components depth t n
  | .width hne hlower haccepted hlong, depth, hdepth => by
    left
    have hread := readName_long hne hlower haccepted hlong
    obtain ⟨c, more, rfl⟩ := List.exists_cons_of_ne_nil hne
    have hparen : c ≠ CodePoint.ofChar '(' := by
      rintro rfl
      exact absurd (hlower _ List.mem_cons_self) (by decide)
    rw [List.cons_append] at hread ⊢
    rw [readBase, if_pos hparen, hread]
  | .list (t := t) hlist, depth, hdepth => by
    left
    have hread : readSeparated (readInner depth) t.length t = .error (.integerTooLong n) :=
      OverlongList.stops hlist (by simpa [text_leftParen] using hdepth) (Nat.le_refl _)
    obtain ⟨c, more, rfl, hc⟩ := hlist.start
    have hopen : ¬ (c :: more).head? = some (CodePoint.ofChar ')') := by
      intro hhead
      obtain rfl := Option.some.inj hhead
      exact absurd hc (by decide)
    rw [text_leftParen, List.singleton_append, readBase, if_neg (by simp),
      if_neg (by exact hopen), hread, error_bind]
  | .tuple hitems hrest, depth, hdepth => by
    refine .inr ⟨_, readName_tuple hrest, fun text path => ?_⟩
    rw [ofComponents, OverlongComponents.stops hitems, error_bind]
termination_by structural h => h

theorem OverlongList.stops {t : Text} {n : Nat} :
    OverlongList t n → ∀ {depth count : Nat}, t.length ≤ depth → t.length ≤ count →
      readSeparated (readInner depth) count t = .error (.integerTooLong n)
  | .here htype, depth, count, hdepth, hcount => by
    obtain ⟨c, more, ht, -⟩ := htype.start
    obtain ⟨d, rfl⟩ : ∃ d, depth = d + 1 := ⟨depth - 1, by simp [ht] at hdepth; omega⟩
    have hitem := (Overlong.stops htype hdepth).readInner
    cases count with
    | zero => rw [readSeparated, hitem, error_bind]
    | succ count => rw [readSeparated, hitem, error_bind]
  | .later (w := w) (t := t) htype hsupported hlist, depth, count, hdepth, hcount => by
    simp only [text_comma, List.length_append, List.length_cons, List.length_nil]
      at hdepth hcount
    obtain ⟨d, rfl⟩ : ∃ d, depth = d + 1 := ⟨depth - 1, by omega⟩
    obtain ⟨k, rfl⟩ : ∃ k, count = k + 1 := ⟨count - 1, by omega⟩
    have hcomma : Text.NotAhead continuesType ("," ++ t) := rfl
    have hitem := htype.reads hsupported (by omega : w.length ≤ d + 1) hcomma
    have hothers : readSeparated (readInner (d + 1)) k t = .error (.integerTooLong n) :=
      OverlongList.stops hlist (by omega) (by omega)
    rw [List.append_assoc, readSeparated, hitem.readInner, ok_bind, text_comma,
      List.singleton_append]
    simp [hothers]
termination_by structural h => h

theorem OverlongComponents.stops {items : List Json} {n : Nat} :
    OverlongComponents items n → ∀ {text : Text} {path : Option Text} {index : Nat},
      ofItems text path index items = .error (.integerTooLong n)
  | .here htext hname htype, text, path, index => by
    have hread := Overlong.stops htype (Nat.le_succ _)
    rw [ofItems, ofItem]
    simp [htext, componentName_eq_some hname, ofComponentsField_eq, hread.ofText]
  | .later htext hname htype hsupported hrest, text, path, index => by
    have hread := htype.reads hsupported (Nat.le_succ _) Text.notAhead_nil
    rw [List.append_nil] at hread
    have hothers : ofItems text path (index + 1) _ = .error (.integerTooLong n) :=
      OverlongComponents.stops hrest
    rw [ofItems, ofItem]
    simp [htext, componentName_eq_some hname, ofComponentsField_eq, hread.ofText, hothers]
termination_by structural h => h

end

/-- Reading ends with the fault of a long number exactly if it comes to one. -/
theorem parse_eq_long {text : Text} {components : Json} {path : Option Text} {n : Nat} :
    parse (.str text) components path = .error (.integerTooLong n) ↔
      Overlong components (Text.trim text) n := by
  constructor
  · exact overlong_of_ofText (standsFor_ofComponents _ _ components)
  · intro h
    exact (h.stops (Nat.le_succ _)).ofText path

/-- Whatever the text and whatever comes with it, reading gives a type that has a binding, or says
that a type is not supported, or that a number is too long; and it says the last exactly if it
comes to such a number before it comes to anything else that is wrong. -/
theorem parse_total (text : Text) (components : Json) (path : Option Text) :
    ((∃ type binding, parse (.str text) components path = .ok type ∧
        Binding.ofType type = .ok binding) ∨
      (∃ part place reason,
        parse (.str text) components path = .error (.unsupportedType part place reason)) ∨
      ∃ n, parse (.str text) components path = .error (.integerTooLong n)) ∧
    ∀ n, parse (.str text) components path = .error (.integerTooLong n) ↔
      Overlong components (Text.trim text) n := by
  refine ⟨?_, fun n => parse_eq_long⟩
  cases hread : parse (.str text) components path with
  | ok type =>
    obtain ⟨binding, hbinding⟩ := Binding.exists_ofType (supported_of_parse hread)
    exact .inl ⟨type, binding, rfl, hbinding⟩
  | error fault =>
    rcases parse_eq_error hread with ⟨part, place, reason, rfl, -⟩ | ⟨part, n, rfl, -, -⟩
    · exact .inr (.inl ⟨part, place, reason, rfl⟩)
    · exact .inr (.inr ⟨n, rfl⟩)

/-- A word with a number of many ones after it. -/
theorem parse_ones {word : Text} (hne : word ≠ []) (hlower : ∀ c ∈ word, c.isLower = true)
    (haccepted : word ∉ ["fixed", "ufixed", "function"].map Text.ofString) {n : Nat}
    (hn : Json.digitLimit < n) (components : Json) (path : Option Text) :
    parse (.str (word ++ List.replicate n (CodePoint.ofChar '1'))) components path =
      .error (.integerTooLong n) := by
  have hone : ∀ c ∈ List.replicate n (CodePoint.ofChar '1'), c = CodePoint.ofChar '1' :=
    fun c => List.eq_of_mem_replicate
  have hnumber : LongNumber (List.replicate n (CodePoint.ofChar '1')) := by
    refine ⟨fun c hc => ?_, ?_, by rwa [List.length_replicate]⟩
    · rw [hone c hc]
      decide
    · intro hhead
      have hzero := hone _ (List.mem_of_head? hhead)
      revert hzero
      decide
  have hblank : ∀ c ∈ word ++ List.replicate n (CodePoint.ofChar '1'), c.isBlank = false := by
    intro c hc
    rcases List.mem_append.mp hc with hc | hc
    · exact CodePoint.isBlank_of_isLower (hlower c hc)
    · exact CodePoint.isBlank_of_isDigit (hnumber.isDigit c hc)
  have hstarts := StartsLong.mk hnumber Text.notAhead_nil
  rw [List.append_nil, List.length_replicate] at hstarts
  rw [parse_eq_long, Text.trim_eq_self hblank]
  exact .base (.width hne hlower haccepted hstarts)

/-- An integer with a width of 4301 digits is neither read nor refused as not supported. -/
theorem exists_parse_overlong :
    ∃ text : Text, text = "uint" ++ List.replicate 4301 (CodePoint.ofChar '1') ∧
      parse (.str text) .null none = .error (.integerTooLong 4301) ∧
      ¬ ((∃ type, parse (.str text) .null none = .ok type) ∨
        ∃ part place reason,
          parse (.str text) .null none = .error (.unsupportedType part place reason)) := by
  have hread : parse (.str ("uint" ++ List.replicate 4301 (CodePoint.ofChar '1'))) .null none =
      .error (.integerTooLong 4301) :=
    parse_ones (by decide) (by decide) (by decide) (by decide) .null none
  refine ⟨_, rfl, hread, ?_⟩
  rw [hread]
  rintro (⟨type, h⟩ | ⟨part, place, reason, h⟩)
  · cases h
  · cases h

end AbiBindings.AbiType
