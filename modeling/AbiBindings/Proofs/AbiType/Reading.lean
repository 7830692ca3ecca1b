import AbiBindings.Proofs.AbiType.Supported

/-!
Reading a type text takes off it only what the grammar derives. The readers are taken in the order
in which they are built: suffixes, lists of types for any reader of their items, bases, types in
parentheses by induction on the depth, and last whole texts together with their components, by
induction on the JSON value that holds the components.
-/

namespace AbiBindings.AbiType

open Outcome

theorem readSuffixes_ok {count : Nat} {item type : AbiType} {t left : Text}
    (h : readSuffixes count item t = .ok (type, left)) :
    ∃ w, t = w ++ left ∧ Suffixed item w type ∧ (item.Supported → type.Supported) := by
  induction count generalizing item t with
  | zero =>
    obtain ⟨rfl, rfl⟩ := Prod.mk.inj (Except.ok.inj h)
    exact ⟨[], rfl, .done, id⟩
  | succ count ih =>
    cases t with
    | nil =>
      obtain ⟨rfl, rfl⟩ := Prod.mk.inj (Except.ok.inj h)
      exact ⟨[], rfl, .done, id⟩
    | cons c rest =>
      rw [readSuffixes] at h
      split at h
      · next hc =>
        obtain ⟨⟨length, afterLength⟩, hnumber, h⟩ := bind_eq_ok.mp h
        obtain ⟨after, hclose, h⟩ := bind_eq_ok.mp h
        obtain ⟨digits, rfl, hwidth, hfits⟩ := readNumber_ok hnumber
        obtain rfl := expect_ok hclose
        subst hc
        cases hwidth with
        | absent =>
          obtain ⟨w, rfl, hsuffix, hsupported⟩ := ih h
          refine ⟨"[]" ++ w, rfl, .anyLength hsuffix, fun hitem => hsupported ?_⟩
          rwa [Supported]
        | @given _ n hn =>
          cases n with
          | zero => cases h
          | succ n =>
            obtain ⟨w, rfl, hsuffix, hsupported⟩ := ih h
            refine ⟨"[" ++ digits ++ "]" ++ w, ?_, .ofLength hn (by omega) hsuffix,
              fun hitem => hsupported ?_⟩
            · simp [text_leftBracket, text_rightBracket]
            · rw [Supported]
              rw [numeral_iff.mp hn] at hfits
              exact ⟨⟨n + 1, rfl, by omega, hfits⟩, hitem⟩
      · obtain ⟨rfl, rfl⟩ := Prod.mk.inj (Except.ok.inj h)
        exact ⟨[], rfl, .done, id⟩

/-- A reader of types that have no components at hand, as far as it goes. -/
def ReadsTypes (readItem : Text → Except ScanFault (AbiType × Text)) : Prop :=
  ∀ t type left, readItem t = .ok (type, left) →
    ∃ w, t = w ++ left ∧ Derives .null w type ∧ type.Supported

section

variable {readItem : Text → Except ScanFault (AbiType × Text)}

theorem readSeparated_ok (hitem : ReadsTypes readItem) {count : Nat} {t left : Text}
    {types : List AbiType} (h : readSeparated readItem count t = .ok (types, left)) :
    ∃ w, t = w ++ left ∧ DerivesList w types ∧ ∀ type ∈ types, type.Supported := by
  induction count generalizing t types with
  | zero =>
    obtain ⟨⟨type, rest⟩, hread, hdone⟩ := bind_eq_ok.mp h
    obtain ⟨w, ht, hderives, hsupported⟩ := hitem _ _ _ hread
    obtain ⟨rfl, rfl⟩ := Prod.mk.inj (Except.ok.inj hdone)
    exact ⟨w, ht, .one hderives, by simpa using hsupported⟩
  | succ count ih =>
    obtain ⟨⟨type, rest⟩, hread, hnext⟩ := bind_eq_ok.mp h
    obtain ⟨w, ht, hderives, hsupported⟩ := hitem _ _ _ hread
    cases rest with
    | nil =>
      obtain ⟨rfl, rfl⟩ := Prod.mk.inj (Except.ok.inj hnext)
      exact ⟨w, ht, .one hderives, by simpa using hsupported⟩
    | cons c more =>
      dsimp only at hnext
      split at hnext
      · next hc =>
        obtain ⟨⟨others, after⟩, hothers, hdone⟩ := bind_eq_ok.mp hnext
        obtain ⟨rfl, rfl⟩ := Prod.mk.inj (Except.ok.inj hdone)
        obtain ⟨v, rfl, hlist, hall⟩ := ih hothers
        refine ⟨w ++ "," ++ v, ?_, .more hderives hlist, ?_⟩
        · rw [ht, hc]
          simp [text_comma]
        · simpa using ⟨hsupported, hall⟩
      · obtain ⟨rfl, rfl⟩ := Prod.mk.inj (Except.ok.inj hnext)
        exact ⟨w, ht, .one hderives, by simpa using hsupported⟩

theorem readBase_ok (hitem : ReadsTypes readItem) {t left : Text} {base : Base}
    (h : readBase readItem t = .ok (base, left)) :
    (∃ w type, t = w ++ left ∧ base = .given type ∧ type.Supported ∧
      ∀ components, DerivesBase components w type) ∨
    (t = "tuple" ++ left ∧ base = .components ∧ t.takeWhile CodePoint.isLower = "tuple") := by
  have hname (hread : readName t = .ok (base, left)) :
      (∃ w type, t = w ++ left ∧ base = .given type ∧ type.Supported ∧
        ∀ components, DerivesBase components w type) ∨
      (t = "tuple" ++ left ∧ base = .components ∧
        t.takeWhile CodePoint.isLower = "tuple") := by
    rcases readName_ok hread with ⟨word, digits, width, kind, ht, hnamed, hwidth, hbase⟩ | htuple
    · exact .inl ⟨word ++ digits, elementary kind, ht, hbase, by
        rw [Supported]
        exact hnamed.supported, fun _ => .named hnamed hwidth⟩
    · exact .inr htuple
  cases t with
  | nil => exact hname h
  | cons c rest =>
    rw [readBase] at h
    split at h
    · exact hname h
    · next hc =>
      obtain rfl : c = CodePoint.ofChar '(' := by simpa using hc
      left
      split at h
      · next hclose =>
        obtain ⟨rfl, rfl⟩ := Prod.mk.inj (Except.ok.inj h)
        obtain ⟨more, rfl⟩ := List.head?_eq_some_iff.mp hclose
        exact ⟨"()", _, rfl, rfl, supported_unnamedTuple.mpr (by simp), fun _ => .emptyList⟩
      · obtain ⟨⟨types, after⟩, htypes, h⟩ := bind_eq_ok.mp h
        obtain ⟨end', hclose, h⟩ := bind_eq_ok.mp h
        obtain ⟨rfl, rfl⟩ := Prod.mk.inj (Except.ok.inj h)
        obtain ⟨w, rfl, hlist, hall⟩ := readSeparated_ok hitem htypes
        obtain rfl := expect_ok hclose
        refine ⟨"(" ++ w ++ ")", _, ?_, rfl, supported_unnamedTuple.mpr hall, fun _ => .list hlist⟩
        simp [text_leftParen, text_rightParen]

end

theorem readInner_succ_ok {depth : Nat} {t left : Text} {type : AbiType} :
    readInner (depth + 1) t = .ok (type, left) ↔
      ∃ base after, readBase (readInner depth) t = .ok (.given base, after) ∧
        readSuffixes after.length base after = .ok (type, left) := by
  rw [readInner, bind_eq_ok]
  constructor
  · rintro ⟨⟨base, after⟩, hbase, hnext⟩
    cases base with
    | given given => exact ⟨given, after, hbase, hnext⟩
    | components => cases hnext
  · rintro ⟨base, after, hbase, hnext⟩
    exact ⟨(.given base, after), hbase, hnext⟩

theorem readInner_ok (depth : Nat) : ReadsTypes (readInner depth) := by
  induction depth with
  | zero =>
    intro t type left h
    cases h
  | succ depth ih =>
    intro t type left h
    obtain ⟨base, after, hbase, hsuffixes⟩ := readInner_succ_ok.mp h
    obtain ⟨s, rfl, hsuffix, hsupported⟩ := readSuffixes_ok hsuffixes
    rcases readBase_ok ih hbase with ⟨b, given, rfl, hgiven, hbase, hderives⟩ | ⟨-, hnone, -⟩
    · obtain rfl := Base.given.inj hgiven
      exact ⟨b ++ s, by simp, .suffixed (hderives _) hsuffix, hsupported hbase⟩
    · cases hnone

/-- A text ends after the suffixes that are read off its rest, or is refused. -/
theorem readSuffixes_end {text : Text} {path : Option Text} {start type : AbiType}
    {after : Text} :
    ((readSuffixes after.length start after).mapError (·.toFault text path) >>= fun p =>
      match p.2 with
      | [] => pure p.1
      | c :: _ => .error (.unsupportedType text path
          (.unexpected c (text.length - p.2.length)))) = .ok type ↔
      readSuffixes after.length start after = .ok (type, []) := by
  rw [bind_eq_ok]
  constructor
  · rintro ⟨⟨whole, rest⟩, hread, hdone⟩
    cases rest with
    | nil =>
      obtain rfl := Except.ok.inj hdone
      exact mapError_eq_ok.mp hread
    | cons c more => cases hdone
  · intro hread
    exact ⟨(type, []), mapError_eq_ok.mpr hread, rfl⟩

/-- A text is read as a type if it starts with a base and all the rest is suffixes of it. -/
theorem ofText_eq_ok {text : Text} {path : Option Text} {parts : Except Fault AbiType}
    {type : AbiType} :
    ofText text path parts = .ok type ↔
      ∃ base start after, readBase (readInner text.length) text = .ok (base, after) ∧
        (base = .given start ∨ base = .components ∧ parts = .ok start) ∧
        readSuffixes after.length start after = .ok (type, []) := by
  rw [ofText, bind_eq_ok]
  constructor
  · rintro ⟨⟨base, after⟩, hbase, hnext⟩
    cases base with
    | given start =>
      exact ⟨_, start, after, mapError_eq_ok.mp hbase, .inl rfl, readSuffixes_end.mp hnext⟩
    | components =>
      obtain ⟨start, hstart, hnext⟩ := bind_eq_ok.mp hnext
      exact ⟨_, start, after, mapError_eq_ok.mp hbase, .inr ⟨rfl, hstart⟩,
        readSuffixes_end.mp hnext⟩
  · rintro ⟨base, start, after, hbase, hstart, hnext⟩
    refine ⟨(base, after), mapError_eq_ok.mpr hbase, ?_⟩
    rcases hstart with rfl | ⟨rfl, hstart⟩
    · exact readSuffixes_end.mpr hnext
    · exact bind_eq_ok.mpr ⟨start, hstart, readSuffixes_end.mpr hnext⟩

/-- A whole text that is read derives, provided that what `tuple` stands for does. -/
theorem ofText_ok {text : Text} {path : Option Text} {parts : Except Fault AbiType}
    {components : Json} {type : AbiType}
    (hparts : ∀ base, parts = .ok base → DerivesBase components "tuple" base ∧ base.Supported)
    (h : ofText text path parts = .ok type) :
    Derives components text type ∧ type.Supported := by
  obtain ⟨base, start, after, hbase, hstart, hsuffixes⟩ := ofText_eq_ok.mp h
  obtain ⟨s, rfl, hsuffix, hsupported⟩ := readSuffixes_ok hsuffixes
  rw [List.append_nil] at hbase
  rcases readBase_ok (readInner_ok _) hbase with
    ⟨b, given, rfl, rfl, hgiven, hderives⟩ | ⟨rfl, rfl, -⟩
  · rcases hstart with hstart | ⟨hnone, -⟩
    · obtain rfl := Base.given.inj hstart
      exact ⟨.suffixed (hderives _) hsuffix, hsupported hgiven⟩
    · cases hnone
  · rcases hstart with hnone | ⟨-, hstart⟩
    · cases hnone
    · obtain ⟨hderives, hsupportedStart⟩ := hparts start hstart
      exact ⟨.suffixed hderives hsuffix, hsupported hsupportedStart⟩

theorem componentName_ok {fields : List (Text × Json)} {name : Text}
    (h : componentName fields = some name) : ComponentName (Json.lookup fields "name") name := by
  rw [componentName] at h
  split at h
  · next hname =>
    obtain rfl := Option.some.inj h
    rw [hname]
    exact .absent
  · next hname =>
    obtain rfl := Option.some.inj h
    rw [hname]
    exact .text
  · next value _ hname =>
    rw [hname]
    cases hset : value.isSet with
    | true => simp [hset] at h
    | false =>
      obtain rfl : [] = name := by simpa [hset] using h
      exact .unset hset

mutual

theorem ofComponents_ok {text : Text} {path : Option Text} {type : AbiType} :
    ∀ components : Json, ofComponents text path components = .ok type →
      DerivesBase components "tuple" type ∧ type.Supported
  | .arr items, h => by
    rw [ofComponents] at h
    obtain ⟨parts, hitems, hdone⟩ := bind_eq_ok.mp h
    obtain rfl := Except.ok.inj hdone
    obtain ⟨hderives, hsupported⟩ := ofItems_ok items hitems
    exact ⟨.tuple hderives, supported_tuple.mpr hsupported⟩
  | .null, h | .bool _, h | .int _, h | .float _, h | .str _, h | .obj _, h => by
    simp [ofComponents] at h

theorem ofItems_ok {text : Text} {path : Option Text} {index : Nat}
    {parts : List (Text × AbiType)} :
    ∀ items : List Json, ofItems text path index items = .ok parts →
      DerivesComponents items parts ∧ ∀ part ∈ parts, part.2.Supported
  | [], h => by
    obtain rfl := Except.ok.inj h
    exact ⟨.nil, by simp⟩
  | item :: rest, h => by
    rw [ofItems] at h
    obtain ⟨part, hitem, hnext⟩ := bind_eq_ok.mp h
    obtain ⟨others, hrest, hdone⟩ := bind_eq_ok.mp hnext
    obtain rfl := Except.ok.inj hdone
    obtain ⟨hothers, hall⟩ := ofItems_ok rest hrest
    obtain ⟨fields, typeText, rfl, htext, hname, htype, hsupported⟩ := ofItem_ok item hitem
    refine ⟨.cons htext hname htype hothers, fun other hmem => ?_⟩
    rcases List.mem_cons.mp hmem with rfl | hmem
    · exact hsupported
    · exact hall other hmem

theorem ofItem_ok {text : Text} {path : Option Text} {index : Nat} {part : Text × AbiType} :
    ∀ item : Json, ofItem text path index item = .ok part →
      ∃ fields typeText, item = .obj fields ∧ Json.lookup fields "type" = some (.str typeText) ∧
        ComponentName (Json.lookup fields "name") part.1 ∧
        Derives (componentsOf fields) (Text.trim typeText) part.2 ∧ part.2.Supported
  | .obj fields, h => by
    rw [ofItem] at h
    split at h
    · next typeText htext =>
      split at h
      · cases h
      · next name hname =>
        obtain ⟨type, htype, hdone⟩ := bind_eq_ok.mp h
        obtain rfl := Except.ok.inj hdone
        refine ⟨fields, typeText, rfl, htext, componentName_ok hname, ?_⟩
        exact ofText_ok (fun base hbase => ofComponentsField_ok fields hbase) htype
    · cases h
  | .null, h | .bool _, h | .int _, h | .float _, h | .str _, h | .arr _, h => by
    simp [ofItem] at h

theorem ofComponentsField_ok {text : Text} {path : Option Text} {type : AbiType} :
    ∀ fields : List (Text × Json), ofComponentsField text path fields = .ok type →
      DerivesBase (componentsOf fields) "tuple" type ∧ type.Supported
  | [], h => by cases h
  | (key, value) :: rest, h => by
    rw [ofComponentsField] at h
    rw [componentsOf, Json.lookup]
    split at h
    · next hkey =>
      rw [if_pos hkey]
      exact ofComponents_ok value h
    · next hkey =>
      rw [if_neg hkey]
      exact ofComponentsField_ok rest h

end

end AbiBindings.AbiType
