import AbiBindings.Proofs.AbiType.Reading

/-!
Whatever the grammar derives is read, as long as no number in it is too long. The induction is on
the derivation, with any rest behind the text that does not continue it; the bounds that the
readers count down are lengths of texts, and every step of a derivation takes a code point.

Together with what is read being derived this gives the main statement: reading gives a type
exactly when the trimmed text derives it.
-/

namespace AbiBindings.AbiType

open Outcome

theorem Suffixed.supported_item {item type : AbiType} {w : Text} (h : Suffixed item w type)
    (htype : type.Supported) : item.Supported := by
  induction h with
  | done => exact htype
  | anyLength _ ih =>
    have harray := ih htype
    rwa [Supported] at harray
  | ofLength _ _ _ ih =>
    have harray := ih htype
    rw [Supported] at harray
    exact harray.2

theorem readSuffixes_done {count : Nat} {type : AbiType} {rest : Text}
    (hrest : Text.NotAhead continuesType rest) :
    readSuffixes count type rest = .ok (type, rest) := by
  cases count with
  | zero => rfl
  | succ count =>
    cases rest with
    | nil => rfl
    | cons c more =>
      have hc : c ≠ CodePoint.ofChar '[' := by
        rintro rfl
        exact not_notAhead_bracket hrest
      rw [readSuffixes, if_neg hc]

theorem readSuffixes_anyLength {count : Nat} {item : AbiType} {t : Text} :
    readSuffixes (count + 1) item ("[]" ++ t) = readSuffixes count (array none item) t := by
  have hnumber : readNumber .arrayLength ("]" ++ t) = .ok (none, "]" ++ t) :=
    readNumber_widthText .absent (Nat.zero_le _) rfl
  have hclose : expect ']' ("]" ++ t) = .ok t := expect_cons _ _
  rw [text_brackets, List.cons_append, List.cons_append, readSuffixes, if_pos rfl]
  change (readNumber .arrayLength ("]" ++ t) >>= _) = _
  rw [hnumber, ok_bind]
  dsimp only
  rw [hclose, ok_bind]

theorem readSuffixes_ofLength {count n : Nat} {item : AbiType} {digits t : Text}
    (hn : Numeral digits n) (hlength : IsArrayLength n) :
    readSuffixes (count + 1) item ("[" ++ (digits ++ ("]" ++ t))) =
      readSuffixes count (array (some n) item) t := by
  have hfits : digits.length ≤ Json.digitLimit := by
    rw [numeral_iff.mp hn]
    exact hlength.2
  have hnumber : readNumber .arrayLength (digits ++ ("]" ++ t)) = .ok (some n, "]" ++ t) :=
    readNumber_widthText (.given hn) hfits rfl
  have hclose : expect ']' ("]" ++ t) = .ok t := expect_cons _ _
  obtain ⟨m, rfl⟩ : ∃ m, n = m + 1 := ⟨n - 1, by have hpos := hlength.1; omega⟩
  rw [text_leftBracket, List.singleton_append, readSuffixes, if_pos rfl, hnumber, ok_bind]
  dsimp only
  rw [hclose, ok_bind]

theorem readSuffixes_suffixed {item type : AbiType} {w rest : Text} {count : Nat}
    (h : Suffixed item w type) (htype : type.Supported) (hcount : w.length ≤ count)
    (hrest : Text.NotAhead continuesType rest) :
    readSuffixes count item (w ++ rest) = .ok (type, rest) := by
  induction h generalizing count with
  | done => exact readSuffixes_done hrest
  | @anyLength item type w _ ih =>
    simp only [text_brackets, List.length_append, List.length_cons] at hcount
    obtain ⟨k, rfl⟩ : ∃ k, count = k + 1 := ⟨count - 1, by omega⟩
    rw [List.append_assoc, readSuffixes_anyLength]
    exact ih htype (by omega)
  | @ofLength item type digits w n hn hpos hsuffix ih =>
    simp only [text_leftBracket, List.length_append, List.length_cons] at hcount
    obtain ⟨k, rfl⟩ : ∃ k, count = k + 1 := ⟨count - 1, by omega⟩
    have harray := hsuffix.supported_item htype
    rw [Supported] at harray
    obtain ⟨m, hm, hlength⟩ := harray.1
    obtain rfl : n = m := Int.ofNat.inj hm
    simp only [List.append_assoc]
    rw [readSuffixes_ofLength hn hlength]
    exact ih htype (by omega)

theorem componentName_eq_some {fields : List (Text × Json)} {name : Text}
    (h : ComponentName (Json.lookup fields "name") name) : componentName fields = some name := by
  rw [componentName]
  generalize Json.lookup fields "name" = value at h
  cases h with
  | absent => rfl
  | text => rfl
  | @unset value hunset =>
    cases value with
    | str name =>
      obtain rfl : name = [] := by simpa [Json.isSet] using hunset
      rfl
    | _ => simp [hunset]

theorem ofComponentsField_eq (text : Text) (path : Option Text) (fields : List (Text × Json)) :
    ofComponentsField text path fields = ofComponents text path (componentsOf fields) := by
  induction fields with
  | nil => simp [ofComponentsField, componentsOf, Json.lookup, ofComponents]
  | cons field rest ih =>
    obtain ⟨key, value⟩ := field
    rw [ofComponentsField, componentsOf, Json.lookup]
    by_cases hkey : key = "components"
    · rw [if_pos hkey, if_pos hkey]
      rfl
    · rw [if_neg hkey, if_neg hkey, ih, componentsOf]

def ReadsBase (components : Json) (depth : Nat) (t : Text) (type : AbiType) (rest : Text) : Prop :=
  ∃ base, readBase (readInner depth) t = .ok (base, rest) ∧
    (base = .given type ∨
      base = .components ∧ ∀ text path, ofComponents text path components = .ok type)

def ReadsType (components : Json) (depth : Nat) (t : Text) (type : AbiType) (rest : Text) : Prop :=
  ∃ start after, ReadsBase components depth t start after ∧
    readSuffixes after.length start after = .ok (type, rest)

theorem ReadsType.readInner {depth : Nat} {t rest : Text} {type : AbiType}
    (h : ReadsType .null depth t type rest) :
    AbiType.readInner (depth + 1) t = .ok (type, rest) := by
  obtain ⟨start, after, ⟨base, hbase, rfl | ⟨-, hnone⟩⟩, hsuffixes⟩ := h
  · exact readInner_succ_ok.mpr ⟨start, after, hbase, hsuffixes⟩
  · simpa [ofComponents] using hnone [] none

theorem ReadsType.ofText {components : Json} {text : Text} {type : AbiType}
    (h : ReadsType components text.length text type []) (path : Option Text) :
    AbiType.ofText text path (ofComponents text path components) = .ok type := by
  obtain ⟨start, after, ⟨base, hbase, hstart⟩, hsuffixes⟩ := h
  refine ofText_eq_ok.mpr ⟨base, start, after, hbase, ?_, hsuffixes⟩
  exact hstart.imp id (And.imp_right fun hparts => hparts text path)

mutual

theorem Derives.reads {components : Json} {w : Text} {type : AbiType} :
    Derives components w type → type.Supported → ∀ {depth : Nat} {rest : Text},
      w.length ≤ depth + 1 → Text.NotAhead continuesType rest →
      ReadsType components depth (w ++ rest) type rest
  | .suffixed (b := b) (s := s) hbase hsuffix, htype, depth, rest, hdepth, hrest => by
    rw [List.length_append] at hdepth
    have hafter := notAhead_append hsuffix.notAhead_continuesWord (notAhead_continuesWord hrest)
    have hread :=
      DerivesBase.reads hbase (hsuffix.supported_item htype) (by omega : b.length ≤ depth + 1) hafter
    rw [List.append_assoc]
    exact ⟨_, s ++ rest, hread, readSuffixes_suffixed hsuffix htype (by simp) hrest⟩
termination_by structural h => h

theorem DerivesBase.reads {components : Json} {w : Text} {type : AbiType} :
    DerivesBase components w type → type.Supported → ∀ {depth : Nat} {rest : Text},
      w.length ≤ depth + 1 → Text.NotAhead continuesWord rest →
      ReadsBase components depth (w ++ rest) type rest
  | .named hnamed hwidth, htype, depth, rest, hdepth, hrest => by
    refine ⟨_, ?_, .inl rfl⟩
    obtain ⟨c, more, rfl⟩ := List.exists_cons_of_ne_nil hnamed.isLower.1
    have hc := hnamed.isLower.2 c (by simp)
    have hparen : c ≠ CodePoint.ofChar '(' := by
      rintro rfl
      exact absurd hc (by decide)
    rw [← readName_named hnamed hwidth hrest]
    simp only [List.cons_append]
    rw [readBase, if_pos hparen]
  | .emptyList, htype, depth, rest, hdepth, hrest => ⟨_, rfl, .inl rfl⟩
  | .list (w := w) hlist, htype, depth, rest, hdepth, hrest => by
    refine ⟨_, ?_, .inl rfl⟩
    have hall := supported_unnamedTuple.mp htype
    simp only [text_leftParen, List.length_append, List.length_cons] at hdepth
    have hread : readSeparated (readInner depth) (w ++ (")" ++ rest)).length
        (w ++ (")" ++ rest)) = .ok (_, ")" ++ rest) :=
      DerivesList.reads hlist hall (by omega) (by simp) notAhead_paren
    obtain ⟨c, more, rfl, hc⟩ := hlist.start
    have hopen : ¬ (c :: more ++ (")" ++ rest)).head? = some (CodePoint.ofChar ')') := by
      intro hhead
      obtain rfl := Option.some.inj hhead
      exact absurd hc (by decide)
    simp only [List.append_assoc]
    rw [text_leftParen, List.singleton_append, readBase, if_neg (by simp),
      if_neg (by exact hopen), hread, ok_bind]
    rfl
  | .tuple hparts, htype, depth, rest, hdepth, hrest => by
    refine ⟨.components, ?_, .inr ⟨rfl, fun text path => ?_⟩⟩
    · exact readName_tuple hrest
    · rw [ofComponents, DerivesComponents.reads hparts (supported_tuple.mp htype), ok_bind]
      rfl
termination_by structural h => h

theorem DerivesList.reads {w : Text} {types : List AbiType} :
    DerivesList w types → (∀ type ∈ types, type.Supported) → ∀ {depth count : Nat} {rest : Text},
      w.length ≤ depth → w.length ≤ count → Text.NotAhead continuesList rest →
      readSeparated (readInner depth) count (w ++ rest) = .ok (types, rest)
  | .one (w := w) htype, hall, depth, count, rest, hdepth, hcount, hrest => by
    obtain ⟨c, more, hw, -⟩ := htype.start
    obtain ⟨d, rfl⟩ : ∃ d, depth = d + 1 := ⟨depth - 1, by simp [hw] at hdepth; omega⟩
    have hitem := Derives.reads htype (hall _ (by simp)) hdepth (notAhead_continuesType hrest)
    cases count with
    | zero => rw [readSeparated, hitem.readInner, ok_bind]; rfl
    | succ count =>
      rw [readSeparated, hitem.readInner, ok_bind]
      cases rest with
      | nil => rfl
      | cons next after =>
        have hnext : next ≠ CodePoint.ofChar ',' := by
          rintro rfl
          exact not_notAhead_comma hrest
        simp [hnext]
  | .more (w := w) (v := v) htype hlist, hall, depth, count, rest, hdepth, hcount, hrest => by
    simp only [text_comma, List.length_append, List.length_cons, List.length_nil]
      at hdepth hcount
    obtain ⟨d, rfl⟩ : ∃ d, depth = d + 1 := ⟨depth - 1, by omega⟩
    obtain ⟨k, rfl⟩ : ∃ k, count = k + 1 := ⟨count - 1, by omega⟩
    have hcomma : Text.NotAhead continuesType ("," ++ (v ++ rest)) := rfl
    have hitem := Derives.reads htype (hall _ (by simp)) (by omega : w.length ≤ d + 1) hcomma
    have hothers : readSeparated (readInner (d + 1)) k (v ++ rest) = .ok (_, rest) :=
      DerivesList.reads hlist (fun other hmem => hall other (by simp [hmem])) (by omega) (by omega)
        hrest
    simp only [List.append_assoc]
    rw [readSeparated, hitem.readInner, ok_bind, text_comma, List.singleton_append]
    simp [hothers]
termination_by structural h => h

theorem DerivesComponents.reads {items : List Json} {parts : List (Text × AbiType)} :
    DerivesComponents items parts → (∀ part ∈ parts, part.2.Supported) →
      ∀ {text : Text} {path : Option Text} {index : Nat},
        ofItems text path index items = .ok parts
  | .nil, _, _, _, _ => rfl
  | @DerivesComponents.cons fields typeText name type rest parts htext hname htype hrest,
      hall, text, path, index => by
    have hread := Derives.reads htype (hall (name, type) (by simp)) (Nat.le_succ _)
      Text.notAhead_nil
    rw [List.append_nil] at hread
    have hothers : ofItems text path (index + 1) rest = .ok parts :=
      DerivesComponents.reads hrest fun part hmem => hall part (by simp [hmem])
    rw [ofItems, ofItem]
    simp [htext, componentName_eq_some hname, ofComponentsField_eq, hread.ofText, hothers]
termination_by structural h => h

end

/-- Reading gives the supported types that the trimmed text derives, and no others. -/
theorem parse_eq_ok {text : Text} {components : Json} {path : Option Text} {type : AbiType} :
    parse (.str text) components path = .ok type ↔
      Derives components (Text.trim text) type ∧ type.Supported := by
  constructor
  · intro h
    exact ofText_ok (fun base hbase => ofComponents_ok components hbase) h
  · rintro ⟨hderives, hsupported⟩
    have hread := hderives.reads hsupported (Nat.le_succ _) Text.notAhead_nil
    rw [List.append_nil] at hread
    exact hread.ofText path

/-- Only texts are read. -/
theorem exists_text_of_parse {source components : Json} {path : Option Text} {type : AbiType}
    (h : parse source components path = .ok type) : ∃ text, source = .str text := by
  unfold parse at h
  split at h
  · exact ⟨_, rfl⟩
  · split at h <;> cases h

theorem supported_of_parse {source components : Json} {path : Option Text} {type : AbiType}
    (h : parse source components path = .ok type) : type.Supported := by
  obtain ⟨text, rfl⟩ := exists_text_of_parse h
  exact (parse_eq_ok.mp h).2

/-- The word that a type text starts with, which is empty in front of a parenthesis. -/
def baseWord (text : Text) : Text := (Text.trim text).takeWhile CodePoint.isLower

/-- Only the base `tuple` looks at what the components stand for. -/
theorem ofText_congr {text : Text} {path : Option Text} {parts parts' : Except Fault AbiType}
    (h : text.takeWhile CodePoint.isLower ≠ "tuple") :
    ofText text path parts = ofText text path parts' := by
  rw [ofText, ofText]
  cases hread : readBase (readInner text.length) text with
  | error fault => rfl
  | ok result =>
    obtain ⟨base, after⟩ := result
    rcases readBase_ok (readInner_ok _) hread with ⟨b, given, -, rfl, -, -⟩ | ⟨-, -, hword⟩
    · rfl
    · exact absurd hword h

/-- Reading accepts exactly the grammar and builds its tree. If no number is too long, a text is
read as a type if and only if the trimmed text derives it; whatever its numbers, a text derives at
most one type; and components matter only to the word `tuple`. -/
theorem parse_iff_derives (text : Text) (components : Json) (path : Option Text) :
    (NumbersFit text components →
      ∀ type, parse (.str text) components path = .ok type ↔
        Derives components (Text.trim text) type) ∧
    (∀ type type', Derives components (Text.trim text) type →
      Derives components (Text.trim text) type' → type = type') ∧
    (baseWord text ≠ "tuple" →
      ∀ other, parse (.str text) other path = parse (.str text) components path) := by
  refine ⟨?_, ?_, ?_⟩
  · intro hfit type
    have htrim : NumbersFit (Text.trim text) components :=
      ⟨hfit.1.of_isInfix (Text.trim_isInfix text), hfit.2⟩
    rw [parse_eq_ok]
    exact ⟨fun h => h.1, fun h => ⟨h, h.supported htrim⟩⟩
  · intro type type' h h'
    exact (h.unique h' rfl Text.notAhead_nil Text.notAhead_nil).1
  · intro hword other
    exact ofText_congr hword

/-- A struct with a struct in it, and blanks around the texts. -/
theorem parse_iff_derives_struct :
    Derives
      (.arr [.obj [("name", .str "a"), ("type", .str "tuple[]"),
        ("components", .arr [.obj [("type", .str " uint ")]])]])
      (Text.trim " tuple[2]")
      (array (some 2) (tuple
        [("a", array none (tuple [("", elementary (.uint (some 256)))]))])) ∧
    parse (.str "(uint8,bool)") (.bool true) none =
      parse (.str "(uint8,bool)") .null none := by
  have hinner : ∀ part, IsComponentText part (.arr [.obj [("type", .str " uint ")]]) →
      DigitRunsFit part := by
    rintro part (⟨hmem, htext⟩ | ⟨hmem, hpart⟩)
    · obtain rfl := Json.obj.inj (List.mem_singleton.mp hmem)
      obtain rfl : " uint " = part := Json.str.inj (Option.some.inj htext)
      exact digitRunsFit_of_length_le (by decide)
    · obtain rfl := Json.obj.inj (List.mem_singleton.mp hmem)
      cases hpart
  have hfit : NumbersFit " tuple[2]"
      (.arr [.obj [("name", .str "a"), ("type", .str "tuple[]"),
        ("components", .arr [.obj [("type", .str " uint ")]])]]) := by
    refine ⟨digitRunsFit_of_length_le (by decide), ?_⟩
    rintro part (⟨hmem, htext⟩ | ⟨hmem, hpart⟩)
    · obtain rfl := Json.obj.inj (List.mem_singleton.mp hmem)
      obtain rfl : "tuple[]" = part := Json.str.inj (Option.some.inj htext)
      exact digitRunsFit_of_length_le (by decide)
    · obtain rfl := Json.obj.inj (List.mem_singleton.mp hmem)
      exact hinner part hpart
  exact ⟨((parse_iff_derives _ _ none).1 hfit _).mp rfl,
    (parse_iff_derives _ _ none).2.2 (by decide) _⟩

end AbiBindings.AbiType
