import AbiBindings.Proofs.AbiType.Overlong
import AbiBindings.Proofs.AbiType.Refusal

/-!
Which text a refusal is about. A type that is not supported is reported for the text that fails, at
the place of that text. It is the first one: reading goes through components in their order, before
the suffixes of the text that they belong to, so everything in front of it is read, and the text
fails for itself, whatever components it has.
-/

namespace AbiBindings.AbiType

open Outcome

/-- A trimmed text whose base is the word `tuple`, so that its components are read. -/
def UsesComponents (text : Text) : Prop :=
  ∃ rest, text = "tuple" ++ rest ∧ Text.NotAhead continuesWord rest

theorem readBase_of_usesComponents {text : Text} (h : UsesComponents text)
    (readItem : Text → Except ScanFault (AbiType × Text)) :
    ∃ after, readBase readItem text = .ok (.components, after) := by
  obtain ⟨rest, rfl, hrest⟩ := h
  exact ⟨rest, readName_tuple hrest⟩

theorem usesComponents_of_readBase {depth : Nat} {text after : Text}
    (h : readBase (readInner depth) text = .ok (.components, after)) : UsesComponents text := by
  rcases readBase_ok (readInner_ok depth) h with ⟨b, given, -, hgiven, -, -⟩ | ⟨htext, -, -⟩
  · cases hgiven
  · exact ⟨after, htext, notAhead_of_readBase h⟩

/-- Reading suffixes takes the same off a text and fails in the same way for all items. -/
theorem readSuffixes_map_snd (count : Nat) (item item' : AbiType) (t : Text) :
    (readSuffixes count item t).map Prod.snd = (readSuffixes count item' t).map Prod.snd := by
  induction count generalizing item item' t with
  | zero => rfl
  | succ count ih =>
    cases t with
    | nil => rfl
    | cons c rest =>
      rw [readSuffixes, readSuffixes]
      split
      · cases readNumber .arrayLength rest with
        | error fault => rfl
        | ok number =>
          obtain ⟨length, afterLength⟩ := number
          rw [ok_bind, ok_bind]
          dsimp only
          cases expect ']' afterLength with
          | error fault => rfl
          | ok left =>
            rw [ok_bind, ok_bind]
            cases length with
            | none => exact ih _ _ left
            | some n =>
              cases n with
              | zero => rfl
              | succ n => exact ih _ _ left
      · rfl

/-- A text after its base: suffixes, and nothing behind them. -/
def readRest (text : Text) (path : Option Text) (start : AbiType) (after : Text) :
    Except Fault AbiType := do
  let (type, left) ← (readSuffixes after.length start after).mapError (·.toFault text path)
  match left with
  | [] => return type
  | c :: _ => .error (.unsupportedType text path (.unexpected c (text.length - left.length)))

/-- The fault in what reading suffixes has left of a text: its own, or anything left at all. -/
def restFault (text : Text) : Except ScanFault Text → Option ScanFault
  | .error scanned => some scanned
  | .ok [] => none
  | .ok (c :: rest) => some (.unsupported (.unexpected c (text.length - (c :: rest).length)))

section

variable {text : Text} {path : Option Text} {parts : Except Fault AbiType} {fault : Fault}

theorem readRest_eq_error_iff {start : AbiType} {after : Text} :
    readRest text path start after = .error fault ↔
      ∃ scanned, restFault text ((readSuffixes after.length start after).map Prod.snd) =
        some scanned ∧ fault = scanned.toFault text path := by
  rw [readRest]
  rcases readSuffixes after.length start after with scanned | ⟨type, _ | ⟨c, rest⟩⟩
  · simp [restFault, Except.map, Except.mapError, eq_comm]
  · simp [restFault, Except.map, Except.mapError]
  · simp [restFault, Except.map, Except.mapError, ScanFault.toFault, eq_comm]

/-- The rest of a text fails in the same way at every place and for every item. -/
theorem readRest_eq_error {start : AbiType} {after : Text}
    (h : readRest text path start after = .error fault) :
    ∃ scanned : ScanFault, fault = scanned.toFault text path ∧
      ∀ path' start', readRest text path' start' after = .error (scanned.toFault text path') := by
  obtain ⟨scanned, hrest, hfault⟩ := readRest_eq_error_iff.mp h
  refine ⟨scanned, hfault, fun path' start' => readRest_eq_error_iff.mpr ⟨scanned, ?_, rfl⟩⟩
  rw [readSuffixes_map_snd after.length start' start after]
  exact hrest

theorem ofText_eq (text : Text) (path : Option Text) (parts : Except Fault AbiType) :
    ofText text path parts =
      match readBase (readInner text.length) text with
      | .error scanned => .error (scanned.toFault text path)
      | .ok (.given start, after) => readRest text path start after
      | .ok (.components, after) => parts >>= fun start => readRest text path start after := by
  rw [ofText]
  cases readBase (readInner text.length) text with
  | error scanned => rfl
  | ok result =>
    obtain ⟨base, after⟩ := result
    cases base with
    | given start => rfl
    | components => rfl

/-- What its components stand for fails a text before its suffixes are read. -/
theorem ofText_of_usesComponents (h : UsesComponents text) (path : Option Text) :
    ofText text path (.error fault) = .error fault := by
  obtain ⟨after, hbase⟩ := readBase_of_usesComponents h (readInner text.length)
  rw [ofText_eq, hbase]
  rfl

/-- A text fails for what its components stand for, or for itself: then it does so at every place
and with all components that are read. -/
theorem ofText_eq_error (h : ofText text path parts = .error fault) :
    (UsesComponents text ∧ parts = .error fault) ∨
      ∃ scanned : ScanFault, fault = scanned.toFault text path ∧
        (UsesComponents text → ∃ start, parts = .ok start) ∧
        ∀ path' parts', (UsesComponents text → ∃ start, parts' = .ok start) →
          ofText text path' parts' = .error (scanned.toFault text path') := by
  rw [ofText_eq] at h
  cases hbase : readBase (readInner text.length) text with
  | error scanned =>
    rw [hbase] at h
    refine .inr ⟨scanned, (Except.error.inj h).symm, ?_, fun path' parts' _ => ?_⟩
    · intro huses
      obtain ⟨after, hafter⟩ := readBase_of_usesComponents huses (readInner text.length)
      rw [hafter] at hbase
      cases hbase
    · rw [ofText_eq, hbase]
  | ok result =>
    obtain ⟨base, after⟩ := result
    rw [hbase] at h
    cases base with
    | given start =>
      obtain ⟨scanned, rfl, hagain⟩ := readRest_eq_error h
      refine .inr ⟨scanned, rfl, ?_, fun path' parts' _ => ?_⟩
      · intro huses
        obtain ⟨after', hafter⟩ := readBase_of_usesComponents huses (readInner text.length)
        rw [hafter] at hbase
        cases hbase
      · rw [ofText_eq, hbase]
        exact hagain path' start
    | components =>
      have huses := usesComponents_of_readBase hbase
      rcases bind_eq_error.mp h with hparts | ⟨start, rfl, hrest⟩
      · exact .inl ⟨huses, hparts⟩
      obtain ⟨scanned, rfl, hagain⟩ := readRest_eq_error hrest
      refine .inr ⟨scanned, rfl, fun _ => ⟨start, rfl⟩, fun path' parts' hparts' => ?_⟩
      obtain ⟨start', rfl⟩ := hparts' huses
      rw [ofText_eq, hbase]
      exact hagain path' start'

end

inductive Readable : Json → Prop
  | mk {fields : List (Text × Json)} {text name : Text} {type : AbiType} :
      Json.lookup fields "type" = some (.str text) →
      ComponentName (Json.lookup fields "name") name →
      (∀ path, parse (.str text) (componentsOf fields) path = .ok type) → Readable (.obj fields)

section

variable {outer : Text} {path : Option Text} {index : Nat} {fault : Fault}

theorem ofItem_obj {fields : List (Text × Json)} {text name : Text}
    (htext : Json.lookup fields "type" = some (.str text))
    (hname : ComponentName (Json.lookup fields "name") name) :
    ofItem outer path index (.obj fields) =
      (parse (.str text) (componentsOf fields) (some (componentTypePath path index))).map
        fun type => (name, type) := by
  rw [ofItem]
  simp only [htext, componentName_eq_some hname, ofComponentsField_eq]
  rw [parse, parseText]
  cases ofText (Text.trim text) (some (componentTypePath path index)) (ofComponents
    (Text.trim text) (some (componentTypePath path index)) (componentsOf fields)) with
  | error fault => rfl
  | ok type => rfl

theorem readable_of_ofItem {item : Json} {part : Text × AbiType}
    (h : ofItem outer path index item = .ok part) : Readable item := by
  obtain ⟨fields, text, rfl, htext, hname, hderives⟩ := ofItem_ok item h
  exact .mk htext hname fun place => parse_eq_ok.mpr hderives

theorem Readable.ofItem {item : Json} (h : Readable item) (outer : Text) (path : Option Text)
    (index : Nat) : ∃ part, AbiType.ofItem outer path index item = .ok part := by
  cases h with
  | @mk fields text name type htext hname hread =>
    refine ⟨(name, type), ?_⟩
    rw [ofItem_obj htext hname, hread]
    rfl

theorem exists_ofItems {items : List Json} (h : ∀ item ∈ items, Readable item) (outer : Text)
    (path : Option Text) (index : Nat) : ∃ parts, ofItems outer path index items = .ok parts := by
  induction items generalizing index with
  | nil => exact ⟨[], rfl⟩
  | cons item rest ih =>
    rw [List.forall_mem_cons] at h
    obtain ⟨part, hpart⟩ := h.1.ofItem outer path index
    obtain ⟨parts, hparts⟩ := ih h.2 (index + 1)
    exact ⟨part :: parts, by rw [ofItems, hpart, ok_bind, hparts]; rfl⟩

theorem readable_of_ofItems {items : List Json} {parts : List (Text × AbiType)}
    (h : ofItems outer path index items = .ok parts) : ∀ item ∈ items, Readable item := by
  induction items generalizing index parts with
  | nil => exact fun _ hmem => absurd hmem List.not_mem_nil
  | cons item rest ih =>
    obtain ⟨part, hpart, hothers⟩ := bind_eq_ok.mp h
    obtain ⟨others, hrest, -⟩ := bind_eq_ok.mp hothers
    exact List.forall_mem_cons.mpr ⟨readable_of_ofItem hpart, ih hrest⟩

/-- Components stand for a tuple exactly if they are a list and each of them is read. -/
theorem exists_ofComponents_iff {components : Json} :
    (∃ type, ofComponents outer path components = .ok type) ↔
      ∃ items, components = .arr items ∧ ∀ item ∈ items, Readable item := by
  constructor
  · rintro ⟨type, h⟩
    cases components with
    | arr items =>
      rw [ofComponents] at h
      obtain ⟨parts, hparts, -⟩ := bind_eq_ok.mp h
      exact ⟨items, rfl, readable_of_ofItems hparts⟩
    | _ => cases h
  · rintro ⟨items, rfl, hitems⟩
    obtain ⟨parts, hparts⟩ := exists_ofItems hitems outer path 0
    exact ⟨tuple parts, by rw [ofComponents, hparts]; rfl⟩

/-- Components fail with the first of them that fails. -/
theorem ofItems_eq_error {items : List Json} :
    ofItems outer path index items = .error fault ↔
      ∃ (position : Nat) (item : Json), items[position]? = some item ∧
        (∀ earlier ∈ items.take position, Readable earlier) ∧
        ofItem outer path (index + position) item = .error fault := by
  induction items generalizing index with
  | nil => simp [ofItems]
  | cons first rest ih =>
    rw [ofItems, bind_eq_error]
    constructor
    · rintro (hfirst | ⟨part, hpart, hothers⟩)
      · exact ⟨0, first, rfl, by simp, hfirst⟩
      rcases bind_eq_error.mp hothers with hrest | ⟨parts, -, hdone⟩
      · obtain ⟨position, item, hitem, hearlier, hfail⟩ := ih.mp hrest
        refine ⟨position + 1, item, hitem, ?_, ?_⟩
        · rw [List.take_succ_cons]
          exact List.forall_mem_cons.mpr ⟨readable_of_ofItem hpart, hearlier⟩
        · rwa [← Nat.succ_add_eq_add_succ]
      · cases hdone
    · rintro ⟨position, item, hitem, hearlier, hfail⟩
      cases position with
      | zero =>
        obtain rfl := Option.some.inj hitem
        exact .inl hfail
      | succ position =>
        rw [List.take_succ_cons, List.forall_mem_cons] at hearlier
        rw [← Nat.succ_add_eq_add_succ] at hfail
        obtain ⟨part, hpart⟩ := hearlier.1.ofItem outer path index
        refine .inr ⟨part, hpart, bind_eq_error.mpr (.inl ?_)⟩
        exact ih.mpr ⟨position, item, hitem, hearlier.2, hfail⟩

end

/-- What a place is written as where something is below it. -/
def rootOf : Option Text → Text
  | none => "$"
  | some path => if path.isEmpty then "$" else path

def componentStep (index : Nat) : Text := ".components[" ++ Text.ofNat index ++ "].type"

/-- The place of the type of a component inside components, for the place of the outermost type. -/
def placeBelow (path : Option Text) (indices : List Nat) : Option Text :=
  if indices.isEmpty then path else some (rootOf path ++ indices.flatMap componentStep)

theorem componentTypePath_eq (path : Option Text) (index : Nat) :
    componentTypePath path index = rootOf path ++ componentStep index := by
  have hend : ("]" : Text) ++ ".type" = "].type" := rfl
  cases path with
  | none => simp only [componentTypePath, componentPath, rootOf, componentStep,
      List.append_assoc, hend]
  | some path => simp only [componentTypePath, componentPath, rootOf, componentStep,
      List.append_assoc, hend]

theorem placeBelow_cons (path : Option Text) (index : Nat) (indices : List Nat) :
    placeBelow path (index :: indices) =
      placeBelow (some (componentTypePath path index)) indices := by
  have hroot : rootOf (some (componentTypePath path index)) = componentTypePath path index := by
    rw [rootOf, componentTypePath_eq, componentStep]
    simp [Text.ofString]
  cases indices with
  | nil =>
    rw [componentTypePath_eq]
    simp [placeBelow]
  | cons next rest =>
    have hwritten := componentTypePath_eq path index
    simp only [placeBelow, List.isEmpty_cons, Bool.false_eq_true, if_false, hroot,
      List.flatMap_cons]
    rw [hwritten, List.append_assoc]

/-- A text that fails for itself: at every place in the same way, and not for its components, since
it does so with all components that are read, unless it has none. -/
structure FailsItself (components : Json) (text : Text) (reason : TypeFault) : Prop where
  refused : ∀ path, parse (.str text) components path =
    .error (.unsupportedType (Text.trim text) path reason)
  own : components = .null ∨ ∀ items, (∀ item ∈ items, Readable item) → ∀ path,
    parse (.str text) (.arr items) path = .error (.unsupportedType (Text.trim text) path reason)

/-- The text to blame for a type that is not supported: the text itself, or one that the indices
lead to, each to a component of a tuple whose components before that are all read. -/
inductive Blames : (components : Json) → (text : Text) → (indices : List Nat) → (culprit : Text) →
    TypeFault → Prop
  | here {components : Json} {text : Text} {reason : TypeFault} :
      FailsItself components text reason → Blames components text [] text reason
  | inner {items : List Json} {fields : List (Text × Json)} {text part name culprit : Text}
      {index : Nat} {indices : List Nat} {reason : TypeFault} :
      UsesComponents (Text.trim text) → items[index]? = some (.obj fields) →
      (∀ earlier ∈ items.take index, Readable earlier) →
      Json.lookup fields "type" = some (.str part) →
      ComponentName (Json.lookup fields "name") name →
      Blames (componentsOf fields) part indices culprit reason →
      Blames (.arr items) text (index :: indices) culprit reason

/-- A type is refused for the text to blame, at the place of that text. -/
theorem Blames.parse_eq {components : Json} {text culprit : Text} {indices : List Nat}
    {reason : TypeFault} (h : Blames components text indices culprit reason) (path : Option Text) :
    parse (.str text) components path =
      .error (.unsupportedType (Text.trim culprit) (placeBelow path indices) reason) := by
  induction h generalizing path with
  | here hself => exact hself.refused path
  | @inner items fields text part name culprit index indices reason huses hitem hearlier htext
      hname _ ih =>
    have hitems : ofItems (Text.trim text) path 0 items = .error
        (.unsupportedType (Text.trim culprit) (placeBelow path (index :: indices)) reason) := by
      refine ofItems_eq_error.mpr ⟨index, .obj fields, hitem, hearlier, ?_⟩
      rw [ofItem_obj htext hname, Nat.zero_add, ih, placeBelow_cons]
      rfl
    rw [parse, parseText, ofComponents, hitems, error_bind]
    exact ofText_of_usesComponents huses path

section

variable {components : Json} {text type : Text} {path place : Option Text} {reason : TypeFault}

/-- A type is refused for what its components stand for, or its text fails for itself. -/
theorem parse_eq_unsupported
    (h : parse (.str text) components path = .error (.unsupportedType type place reason)) :
    (UsesComponents (Text.trim text) ∧ ofComponents (Text.trim text) path components =
        .error (.unsupportedType type place reason)) ∨
      (FailsItself components text reason ∧ type = Text.trim text ∧ place = path) := by
  rcases ofText_eq_error h with hcomponents | ⟨scanned, hfault, hread, hagain⟩
  · exact .inl hcomponents
  right
  cases scanned with
  | integerTooLong digits => cases hfault
  | unsupported own =>
    obtain ⟨rfl, rfl, rfl⟩ := Fault.unsupportedType.inj hfault
    refine ⟨⟨fun path' => ?_, .inr fun items hitems path' => ?_⟩, rfl, rfl⟩
    · exact hagain path' _ fun huses =>
        exists_ofComponents_iff.mpr (exists_ofComponents_iff.mp (hread huses))
    · exact hagain path' _ fun _ => exists_ofComponents_iff.mpr ⟨items, rfl, hitems⟩

/-- If a type is not supported, there is a text to blame for it, and the refusal names that text
and its place. -/
theorem exists_blames (hshaped : WellShaped components)
    (h : parse (.str text) components path = .error (.unsupportedType type place reason)) :
    ∃ indices culprit, Blames components text indices culprit reason ∧
      type = Text.trim culprit ∧ place = placeBelow path indices := by
  induction hshaped generalizing text path with
  | absent =>
    rcases parse_eq_unsupported h with ⟨huses, hparts⟩ | ⟨hself, htype, hplace⟩
    · rw [ofComponents] at hparts
      obtain ⟨rfl, rfl, rfl⟩ := Fault.unsupportedType.inj (Except.error.inj hparts)
      have hself : FailsItself .null text .componentsMissing :=
        ⟨fun path' => ofText_of_usesComponents huses path', .inl rfl⟩
      exact ⟨[], text, .here hself, rfl, rfl⟩
    · exact ⟨[], text, .here hself, htype, hplace⟩
  | @list items htypes hnames _ ih =>
    rcases parse_eq_unsupported h with ⟨huses, hparts⟩ | ⟨hself, htype, hplace⟩
    · -- the first component that fails has a text to blame in it
      rw [ofComponents] at hparts
      rcases bind_eq_error.mp hparts with hitems | ⟨parts, -, hdone⟩
      · obtain ⟨position, item, hitem, hearlier, hfail⟩ := ofItems_eq_error.mp hitems
        have hmem := List.mem_of_getElem? hitem
        obtain ⟨fields, part, rfl, hpart⟩ := htypes item hmem
        obtain ⟨name, hname⟩ : ∃ name, ComponentName (Json.lookup fields "name") name := by
          cases hlookup : Json.lookup fields "name" with
          | none => exact ⟨[], .absent⟩
          | some value =>
            obtain ⟨name, rfl⟩ := hnames fields value hmem hlookup
            exact ⟨name, .text⟩
        rw [ofItem_obj hpart hname, Nat.zero_add] at hfail
        cases hread : parse (.str part) (componentsOf fields)
            (some (componentTypePath path position)) with
        | ok type =>
          rw [hread] at hfail
          cases hfail
        | error fault =>
          rw [hread] at hfail
          obtain rfl := Except.error.inj hfail
          obtain ⟨indices, culprit, hblames, htype, hplace⟩ := ih fields hmem hread
          refine ⟨position :: indices, culprit, ?_, htype, ?_⟩
          · exact .inner huses hitem hearlier hpart hname hblames
          · rw [placeBelow_cons]
            exact hplace
      · cases hdone
    · exact ⟨[], text, .here hself, htype, hplace⟩

/-- For components that are well shaped, a type is refused as not supported exactly for the text to
blame, at its place. -/
theorem parse_eq_unsupported_iff (hshaped : WellShaped components) :
    parse (.str text) components path = .error (.unsupportedType type place reason) ↔
      ∃ indices culprit, Blames components text indices culprit reason ∧
        type = Text.trim culprit ∧ place = placeBelow path indices := by
  constructor
  · exact exists_blames hshaped
  · rintro ⟨indices, culprit, hblames, rfl, rfl⟩
    exact hblames.parse_eq path

end

end AbiBindings.AbiType
