import AbiBindings.Artifact.Load
import AbiBindings.Proofs.AbiType.Acceptance

/-!
What loading reads. A loaded artifact holds, for every item of the ABI list and in the same order,
the entry that the item describes, numbered by its position; and for every parameter the name and
the type that its own fields spell.
-/

namespace AbiBindings.Artifact

open Outcome

theorem part_eq_ok {value : Json} {key : Text} {v : Json} :
    part value key = .ok v ↔ value.field? key = some v := by
  rw [part]
  cases value.field? key with
  | none => simp
  | some w => simp

theorem textPart_eq_ok {value : Json} {key text : Text} :
    textPart value key = .ok text ↔ value.field? key = some (.str text) := by
  rw [textPart]
  constructor
  · intro h
    obtain ⟨v, hpart, hv⟩ := bind_eq_ok.mp h
    rw [part_eq_ok] at hpart
    cases v with
    | str t =>
      have heq : t = text := Except.ok.inj hv
      rw [hpart, heq]
    | null => cases hv
    | bool b => cases hv
    | int i => cases hv
    | float x => cases hv
    | arr items => cases hv
    | obj fields => cases hv
  · intro h
    rw [part_eq_ok.mpr h]
    rfl

inductive OptionalText (value : Json) (key : Text) : Option Text → Prop
  | absent : value.field? key = none → OptionalText value key none
  | given {text : Text} : value.field? key = some (.str text) → OptionalText value key (some text)

theorem optionalText_eq_ok {value : Json} {key : Text} {t : Option Text} :
    optionalText value key = .ok t ↔ OptionalText value key t := by
  rw [optionalText]
  constructor
  · intro h
    split at h
    · next hfield =>
      cases h
      exact .absent hfield
    · next hfield =>
      cases h
      exact .given hfield
    · cases h
  · rintro (hfield | hfield)
    · rw [hfield]
    · rw [hfield]

inductive OptionalList (value : Json) (key : Text) : List Json → Prop
  | absent : value.field? key = none → OptionalList value key []
  | given {items : List Json} : value.field? key = some (.arr items) →
      OptionalList value key items

theorem listPart_eq_ok {value : Json} {key : Text} {items : List Json} :
    listPart value key = .ok items ↔ OptionalList value key items := by
  rw [listPart]
  constructor
  · intro h
    split at h
    · next hfield =>
      cases h
      exact .absent hfield
    · next hfield =>
      cases h
      exact .given hfield
    · cases h
  · rintro (hfield | hfield)
    · rw [hfield]
    · rw [hfield]

/-- An item spells a parameter: its name, its type with the components that come with it, and
whether it is indexed, which counts for events alone. -/
structure SpellsParam (ofEvent : Bool) (item : Json) (param : Param) : Prop where
  name : ∃ name, OptionalText item "name" name ∧ param.name = name.getD []
  type : ∃ text path, item.field? "type" = some text ∧
    AbiType.parse text ((item.field? "components").getD .null) path = .ok param.type
  indexed : param.indexed = (ofEvent && flagPart item "indexed")
  internalType : OptionalText item "internalType" param.internalType

theorem SpellsParam.supported {ofEvent : Bool} {item : Json} {param : Param}
    (h : SpellsParam ofEvent item param) : param.type.Supported := by
  obtain ⟨text, path, -, htype⟩ := h.type
  exact AbiType.supported_of_parse htype

theorem loadParams_ok {ofEvent : Bool} {place : Location} {index : Nat} {items : List Json}
    {params : List Param} (h : loadParams ofEvent place index items = .ok params) :
    List.Forall₂ (SpellsParam ofEvent) items params := by
  induction items generalizing index params with
  | nil =>
    cases h
    exact .nil
  | cons item rest ih =>
    simp only [loadParams, bind_eq_ok, pure_eq_ok, Except.ok.injEq] at h
    obtain ⟨name, hname, text, htext, type, htype, internal, hinternal, others, hothers, rfl⟩ := h
    refine .cons ⟨?_, ?_, rfl, ?_⟩ (ih hothers)
    · exact ⟨name, optionalText_eq_ok.mp hname, rfl⟩
    · exact ⟨text, _, part_eq_ok.mp htext, htype⟩
    · exact optionalText_eq_ok.mp hinternal

def SpellsParams (ofEvent : Bool) (item : Json) (key : Text) (params : List Param) : Prop :=
  ∃ items, OptionalList item key items ∧ List.Forall₂ (SpellsParam ofEvent) items params

theorem paramsPart_ok {ofEvent : Bool} {item : Json} {place : Location} {key : Text}
    {params : List Param} (h : paramsPart ofEvent item place key = .ok params) :
    SpellsParams ofEvent item key params := by
  obtain ⟨items, hitems, hparams⟩ := bind_eq_ok.mp h
  exact ⟨items, listPart_eq_ok.mp hitems, loadParams_ok hparams⟩

inductive SpellsEntry (item : Json) (index : Nat) : Entry → Prop
  | function {name : Text} {inputs outputs : List Param} {mutability : Mutability} :
      kindOf item = .ok .function → item.field? "name" = some (.str name) →
      SpellsParams false item "inputs" inputs → SpellsParams false item "outputs" outputs →
      mutabilityPart item = .ok mutability →
      SpellsEntry item index (.function ⟨index, name, inputs, outputs, mutability⟩)
  | constructor {inputs : List Param} {mutability : Mutability} :
      kindOf item = .ok .constructor → SpellsParams false item "inputs" inputs →
      mutabilityPart item = .ok mutability →
      SpellsEntry item index (.constructor ⟨index, inputs, mutability⟩)
  | event {name : Text} {inputs : List Param} :
      kindOf item = .ok .event → item.field? "name" = some (.str name) →
      SpellsParams true item "inputs" inputs →
      SpellsEntry item index (.event ⟨index, name, inputs, flagPart item "anonymous"⟩)
  | error {name : Text} {inputs : List Param} :
      kindOf item = .ok .error → item.field? "name" = some (.str name) →
      SpellsParams false item "inputs" inputs →
      SpellsEntry item index (.error ⟨index, name, inputs⟩)
  | fallback {mutability : Mutability} :
      kindOf item = .ok .fallback → mutabilityPart item = .ok mutability →
      SpellsEntry item index (.fallback ⟨index, mutability⟩)
  | receive : kindOf item = .ok .receive → SpellsEntry item index (.receive ⟨index⟩)

theorem loadChecked_ok {kind : EntryKind} {item : Json} {index : Nat} {entry : Entry}
    (hkind : kindOf item = .ok kind) (h : loadChecked kind item index = .ok entry) :
    SpellsEntry item index entry := by
  cases kind with
  | function =>
    simp only [loadChecked, bind_eq_ok, pure_eq_ok, Except.ok.injEq] at h
    obtain ⟨name, hname, inputs, hinputs, outputs, houtputs, mutability, hmutability, rfl⟩ := h
    exact .function hkind (textPart_eq_ok.mp hname) (paramsPart_ok hinputs)
      (paramsPart_ok houtputs) hmutability
  | constructor =>
    simp only [loadChecked, bind_eq_ok, pure_eq_ok, Except.ok.injEq] at h
    obtain ⟨inputs, hinputs, mutability, hmutability, rfl⟩ := h
    exact .constructor hkind (paramsPart_ok hinputs) hmutability
  | event =>
    simp only [loadChecked, bind_eq_ok, pure_eq_ok, Except.ok.injEq] at h
    obtain ⟨name, hname, inputs, hinputs, rfl⟩ := h
    exact .event hkind (textPart_eq_ok.mp hname) (paramsPart_ok hinputs)
  | error =>
    simp only [loadChecked, bind_eq_ok, pure_eq_ok, Except.ok.injEq] at h
    obtain ⟨name, hname, inputs, hinputs, rfl⟩ := h
    exact .error hkind (textPart_eq_ok.mp hname) (paramsPart_ok hinputs)
  | fallback =>
    simp only [loadChecked, bind_eq_ok, pure_eq_ok, Except.ok.injEq] at h
    obtain ⟨mutability, hmutability, rfl⟩ := h
    exact .fallback hkind hmutability
  | receive =>
    simp only [loadChecked, pure_eq_ok, Except.ok.injEq] at h
    obtain rfl := h
    exact .receive hkind

/-- An entry is loaded by its kind, after the check of the shape for that kind. -/
theorem loadEntry_eq_ok {item : Json} {index : Nat} {entry : Entry} :
    loadEntry item index = .ok entry ↔ ∃ kind, kindOf item = .ok kind ∧
      check (Shape.ofEntry kind) item [.key "abi", .index index] = .ok () ∧
      loadChecked kind item index = .ok entry := by
  rw [loadEntry]
  cases kindOf item with
  | error word =>
    dsimp only
    split <;> simp
  | ok kind =>
    rw [bind_eq_ok]
    constructor
    · rintro ⟨⟨⟩, hcheck, hloaded⟩
      exact ⟨kind, rfl, hcheck, hloaded⟩
    · rintro ⟨_, ⟨⟩, hcheck, hloaded⟩
      exact ⟨(), hcheck, hloaded⟩

theorem loadEntry_ok {item : Json} {index : Nat} {entry : Entry}
    (h : loadEntry item index = .ok entry) : SpellsEntry item index entry := by
  obtain ⟨kind, hkind, -, hentry⟩ := loadEntry_eq_ok.mp h
  exact loadChecked_ok hkind hentry

/-- The parameters that an entry declares, results included. -/
def paramsOf : Entry → List Param
  | .function entry => entry.inputs ++ entry.outputs
  | .constructor entry => entry.inputs
  | .event entry => entry.inputs
  | .error entry => entry.inputs
  | .fallback _ | .receive _ => []

theorem SpellsParams.exists_item {ofEvent : Bool} {item : Json} {key : Text} {params : List Param}
    (h : SpellsParams ofEvent item key params) {param : Param} (hmem : param ∈ params) :
    ∃ items, item.field? key = some (.arr items) ∧
      ∃ spelled ∈ items, SpellsParam ofEvent spelled param := by
  obtain ⟨items, hitems, hparams⟩ := h
  obtain ⟨spelled, hspelled, hparam⟩ := Outcome.exists_of_forall₂ hparams hmem
  cases hitems with
  | absent hfield => exact absurd hspelled List.not_mem_nil
  | given hfield => exact ⟨items, hfield, spelled, hspelled, hparam⟩

/-- Every parameter of an entry is spelled by an item of a list in the entry. -/
theorem SpellsEntry.exists_item {item : Json} {index : Nat} {entry : Entry}
    (h : SpellsEntry item index entry) {param : Param} (hmem : param ∈ paramsOf entry) :
    ∃ key items ofEvent, item.field? key = some (.arr items) ∧
      ∃ spelled ∈ items, SpellsParam ofEvent spelled param := by
  cases h with
  | function _ _ hinputs houtputs _ =>
    rcases List.mem_append.mp hmem with hmem | hmem
    · obtain ⟨items, h⟩ := hinputs.exists_item hmem
      exact ⟨_, items, _, h⟩
    · obtain ⟨items, h⟩ := houtputs.exists_item hmem
      exact ⟨_, items, _, h⟩
  | constructor _ hinputs _ =>
    obtain ⟨items, h⟩ := hinputs.exists_item hmem
    exact ⟨_, items, _, h⟩
  | event _ _ hinputs =>
    obtain ⟨items, h⟩ := hinputs.exists_item hmem
    exact ⟨_, items, _, h⟩
  | error _ _ hinputs =>
    obtain ⟨items, h⟩ := hinputs.exists_item hmem
    exact ⟨_, items, _, h⟩
  | fallback _ _ => exact absurd hmem List.not_mem_nil
  | receive _ => exact absurd hmem List.not_mem_nil

theorem SpellsEntry.index_eq {item : Json} {index : Nat} {entry : Entry}
    (h : SpellsEntry item index entry) : entry.index = index := by
  cases h <;> rfl

theorem SpellsEntry.kindOf_eq {item : Json} {index : Nat} {entry : Entry}
    (h : SpellsEntry item index entry) : kindOf item = .ok entry.kind := by
  cases h with
  | function hkind | constructor hkind | event hkind | error hkind | fallback hkind
  | receive hkind => exact hkind

/-- Every entry is loaded from the item at its position. -/
theorem forall₂_of_loadEntries {index : Nat} {items : List Json} {entries : List Entry}
    (h : loadEntries index items = .ok entries) :
    List.Forall₂ (fun p entry => loadEntry p.1 p.2 = .ok entry) (items.zipIdx index) entries := by
  induction items generalizing index entries with
  | nil =>
    cases h
    exact .nil
  | cons item rest ih =>
    simp only [loadEntries, bind_eq_ok, pure_eq_ok, Except.ok.injEq] at h
    obtain ⟨entry, hentry, others, hothers, rfl⟩ := h
    rw [List.zipIdx_cons]
    exact .cons hentry (ih hothers)

/-- Every entry is spelled by the item at its position. -/
theorem loadEntries_ok {index : Nat} {items : List Json} {entries : List Entry}
    (h : loadEntries index items = .ok entries) :
    List.Forall₂ (fun p entry => SpellsEntry p.1 p.2 entry) (items.zipIdx index) entries :=
  (forall₂_of_loadEntries h).imp fun _ _ => loadEntry_ok

/-- What holds of items with their positions and of entries, pair by pair, holds at a position. -/
theorem holds_at {R : Json → Nat → Entry → Prop} {items : List Json} {entries : List Entry}
    {position : Nat} {item : Json} {entry : Entry}
    (h : List.Forall₂ (fun p entry => R p.1 p.2 entry) items.zipIdx entries)
    (hitem : items[position]? = some item) (hentry : entries[position]? = some entry) :
    R item position entry := by
  obtain ⟨-, hget⟩ := List.forall₂_iff_get.mp h
  obtain ⟨hlt, rfl⟩ := List.getElem?_eq_some_iff.mp hitem
  obtain ⟨hlt', rfl⟩ := List.getElem?_eq_some_iff.mp hentry
  have hholds := hget position (by simpa using hlt) hlt'
  rwa [List.get_eq_getElem, List.getElem_zipIdx, Nat.zero_add] at hholds

theorem spells_at {items : List Json} {entries : List Entry} {position : Nat} {item : Json}
    {entry : Entry}
    (h : List.Forall₂ (fun p entry => SpellsEntry p.1 p.2 entry) items.zipIdx entries)
    (hitem : items[position]? = some item) (hentry : entries[position]? = some entry) :
    SpellsEntry item position entry :=
  holds_at h hitem hentry

/-- Every entry at a position has an item there. -/
theorem exists_item_at {items : List Json} {entries : List Entry} {position : Nat} {entry : Entry}
    (h : List.Forall₂ (fun p entry => SpellsEntry p.1 p.2 entry) items.zipIdx entries)
    (hentry : entries[position]? = some entry) :
    ∃ item ∈ items, SpellsEntry item position entry := by
  have hlt : position < items.length := by
    have hlt := (List.getElem?_eq_some_iff.mp hentry).1
    rwa [← h.length_eq, List.length_zipIdx] at hlt
  exact ⟨items[position], List.getElem_mem hlt,
    spells_at h (List.getElem?_eq_getElem hlt) hentry⟩

section

variable {artifact : Artifact}

theorem mem_functions {entry : FunctionEntry} :
    entry ∈ artifact.functions ↔ .function entry ∈ artifact.abi := by
  rw [functions, List.mem_filterMap]
  constructor
  · rintro ⟨declared, hdeclared, heq⟩
    cases declared with
    | function found =>
      cases heq
      exact hdeclared
    | _ => cases heq
  · intro h
    exact ⟨_, h, rfl⟩

theorem mem_events {entry : EventEntry} :
    entry ∈ artifact.events ↔ .event entry ∈ artifact.abi := by
  rw [events, List.mem_filterMap]
  constructor
  · rintro ⟨declared, hdeclared, heq⟩
    cases declared with
    | event found =>
      cases heq
      exact hdeclared
    | _ => cases heq
  · intro h
    exact ⟨_, h, rfl⟩

theorem mem_errors {entry : ErrorEntry} :
    entry ∈ artifact.errors ↔ .error entry ∈ artifact.abi := by
  rw [errors, List.mem_filterMap]
  constructor
  · rintro ⟨declared, hdeclared, heq⟩
    cases declared with
    | error found =>
      cases heq
      exact hdeclared
    | _ => cases heq
  · intro h
    exact ⟨_, h, rfl⟩

theorem mem_of_constructor? {entry : ConstructorEntry} (h : artifact.constructor? = some entry) :
    .constructor entry ∈ artifact.abi := by
  obtain ⟨declared, hdeclared, heq⟩ := List.exists_of_findSome?_eq_some h
  cases declared with
  | constructor found =>
    cases heq
    exact hdeclared
  | _ => cases heq

end

structure IsAddressDigits (t : Text) : Prop where
  length_eq : t.length = 40
  isHexDigit : ∀ c ∈ t, c.isHexDigit = true

/-- An address ends after its digits, or with a line end after them. -/
theorem exists_digits_of_isAddress {t : Text} (h : isAddress t = true) :
    ∃ digits, IsAddressDigits digits ∧
      (t = "0x" ++ digits ∨ t = "0x" ++ digits ++ [CodePoint.ofChar '\n']) := by
  simp only [isAddress, Bool.and_eq_true, beq_iff_eq, List.all_eq_true] at h
  obtain ⟨⟨hstart, hlength⟩, hhex⟩ := h
  obtain ⟨rest, rfl⟩ := List.isPrefixOf_iff_prefix.mp hstart
  refine ⟨Text.dropLineEnd rest, ⟨hlength, hhex⟩, ?_⟩
  rcases Text.eq_dropLineEnd rest with heq | heq
  · exact .inl (congrArg _ heq)
  · rw [List.append_assoc]
    exact .inr (congrArg _ heq)

inductive SpellsAddress : Json → Text → Prop
  | text {address : Text} : SpellsAddress (.str address) address
  | field {value : Json} {address : Text} : value.field? "address" = some (.str address) →
      SpellsAddress value address

theorem addressPart_ok {value : Json} {address : Text} (h : addressPart value = .ok address) :
    SpellsAddress value address := by
  unfold addressPart at h
  split at h
  · cases h
    exact .text
  · exact .field (textPart_eq_ok.mp h)

/-- Every network keeps its name and has the address that its value spells. -/
theorem loadDeployments_ok {fields : List (Text × Json)} {deployments : List (Text × Text)}
    (h : loadDeployments fields = .ok deployments) :
    List.Forall₂ (fun field network => network.1 = field.1 ∧ SpellsAddress field.2 network.2 ∧
      isAddress network.2 = true) fields deployments := by
  induction fields generalizing deployments with
  | nil =>
    cases h
    exact .nil
  | cons field rest ih =>
    obtain ⟨network, value⟩ := field
    rw [loadDeployments] at h
    obtain ⟨address, haddress, h⟩ := bind_eq_ok.mp h
    split at h
    · next hform =>
      obtain ⟨others, hothers, h⟩ := bind_eq_ok.mp h
      obtain rfl := Except.ok.inj h
      exact .cons ⟨rfl, addressPart_ok haddress, hform⟩ (ih hothers)
    · cases h

structure SpellsArtifact (document : Json) (name : Option Text) (artifact : Artifact) : Prop where
  texts : checkTexts document = .ok ()
  name : contractName document name = .ok artifact.name
  abi : ∃ items, document.field? "abi" = some (.arr items) ∧
    List.Forall₂ (fun p entry => SpellsEntry p.1 p.2 entry) items.zipIdx artifact.abi
  sole : EntryKind.singletons.forM (checkSole artifact.abi) = .ok ()
  bytecode : loadBytecode document = .ok artifact.bytecode
  deployments : ∃ fields, networksPart document = .ok fields ∧
    List.Forall₂ (fun field network => network.1 = field.1 ∧ SpellsAddress field.2 network.2 ∧
      isAddress network.2 = true) fields artifact.deployments

theorem abiPart_ok {document : Json} {items : List Json} (h : abiPart document = .ok items) :
    document.field? "abi" = some (.arr items) := by
  rw [abiPart] at h
  split at h
  · next hfield =>
    cases h
    exact hfield
  · cases h

/-- The chosen name is not empty and passes the check of texts. -/
theorem contractName_ok {document : Json} {name : Option Text} {text : Text}
    (h : contractName document name = .ok text) :
    text ≠ [] ∧ checkText (.str text) [.key "contractName"] = .ok () := by
  rw [contractName] at h
  obtain ⟨own, -, h⟩ := bind_eq_ok.mp h
  extract_lets chosen at h
  clear_value chosen
  cases chosen with
  | none => cases h
  | some word =>
    simp only at h
    split at h
    · cases h
    · next hne =>
      obtain ⟨⟨⟩, hchecked, htext⟩ := bind_eq_ok.mp h
      obtain rfl := Except.ok.inj htext
      refine ⟨?_, hchecked⟩
      rintro rfl
      exact hne rfl

theorem loadBytecode_ok {document : Json} {code : Bytecode}
    (h : loadBytecode document = .ok (some code)) :
    ∃ text, bytecodeText document = .ok text ∧ Bytecode.ofText? text = .ok (some code) := by
  rw [loadBytecode] at h
  obtain ⟨text, htext, h⟩ := bind_eq_ok.mp h
  split at h
  · cases h
  · exact ⟨text, htext, mapError_eq_ok.mp h⟩

/-- A loaded artifact is spelled by the document that the value stands for. -/
theorem load_ok {raw : Json} {name : Option Text} {artifact : Artifact}
    (h : load raw name = .ok artifact) :
    ∃ document, documentOf raw = .ok document ∧ check Shape.document document [] = .ok () ∧
      SpellsArtifact document name artifact := by
  simp only [load, Draft.ofJson, bind_eq_ok, pure_eq_ok, Except.ok.injEq] at h
  obtain ⟨draft, ⟨document, hdocument, ⟨⟩, hshape, ⟨⟩, htexts, title, htitle, items, hitems,
    entries, hentries, ⟨⟩, hsole, bytecode, hbytecode, rfl⟩, fields, hfields, deployments,
    hdeployments, rfl⟩ := h
  refine ⟨document, hdocument, hshape, htexts, htitle, ?_, hsole, hbytecode, ?_⟩
  · exact ⟨items, abiPart_ok hitems, loadEntries_ok hentries⟩
  · exact ⟨fields, hfields, loadDeployments_ok hdeployments⟩

section

variable {raw : Json} {name : Option Text} {artifact : Artifact} {entry : Entry}

/-- An entry of a loaded artifact is spelled by the item at its position. -/
theorem SpellsArtifact.exists_item {document : Json} (h : SpellsArtifact document name artifact)
    {position : Nat} (hentry : artifact.abi[position]? = some entry) :
    ∃ items, document.field? "abi" = some (.arr items) ∧
      ∃ item ∈ items, SpellsEntry item position entry := by
  obtain ⟨items, hitems, hentries⟩ := h.abi
  exact ⟨items, hitems, exists_item_at hentries hentry⟩

/-- The entries of a loaded artifact know their positions. -/
theorem index_of_load (h : load raw name = .ok artifact) {position : Nat}
    (hentry : artifact.abi[position]? = some entry) : entry.index = position := by
  obtain ⟨document, -, -, hspelled⟩ := load_ok h
  obtain ⟨items, -, item, -, hspells⟩ := hspelled.exists_item hentry
  exact hspells.index_eq

/-- The types in a loaded artifact are those that reading can give. -/
theorem supported_of_load (h : load raw name = .ok artifact) (hentry : entry ∈ artifact.abi)
    {param : Param} (hparam : param ∈ paramsOf entry) : param.type.Supported := by
  obtain ⟨position, hposition⟩ := List.mem_iff_getElem?.mp hentry
  obtain ⟨document, -, -, hspelled⟩ := load_ok h
  obtain ⟨items, -, item, -, hspells⟩ := hspelled.exists_item hposition
  obtain ⟨key, items, ofEvent, -, spelled, -, hparam⟩ := hspells.exists_item hparam
  exact hparam.supported

end

end AbiBindings.Artifact
