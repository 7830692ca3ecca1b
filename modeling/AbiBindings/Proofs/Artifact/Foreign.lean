import AbiBindings.Proofs.Artifact.Encodable
import AbiBindings.Proofs.Artifact.Widening

/-!
Loading documents with foreign fields. A document and a wider one are read side by side: types,
parameters, entries, bytecode and networks come out the same. Only the check of texts looks at what
it does not know: below the keys that it starts from, a text without a UTF-8 form anywhere makes
loading fail.
-/

namespace AbiBindings.Artifact

open Outcome

mutual

/-- What wider components stand for does not change. -/
theorem ofComponents_widens {text : Text} {path : Option Text} {components components' : Json}
    {role : Role} (hrole : role = .params) : Widens role components components' →
      AbiType.ofComponents text path components' = AbiType.ofComponents text path components
  | .same => rfl
  | .items hitems => by
    rw [AbiType.ofComponents, AbiType.ofComponents, ofItems_widens (by rw [hrole]; rfl) hitems]
  | .fields _ => rfl
termination_by structural h => h

theorem ofItems_widens {text : Text} {path : Option Text} {items items' : List Json} {index : Nat}
    {role : Role} (hrole : role = .param) : WidensItems role items items' →
      AbiType.ofItems text path index items' = AbiType.ofItems text path index items
  | .nil => rfl
  | .cons hitem hrest => by
    rw [AbiType.ofItems, AbiType.ofItems, ofItem_widens hrole hitem, ofItems_widens hrole hrest]
termination_by structural h => h

theorem ofItem_widens {text : Text} {path : Option Text} {item item' : Json} {index : Nat}
    {role : Role} (hrole : role = .param) : Widens role item item' →
      AbiType.ofItem text path index item' = AbiType.ofItem text path index item
  | .same => rfl
  | .items _ => rfl
  | @Widens.fields _ fields fields' hfields => by
    have hplain (key : Text) (hkey : key ∈ vocabulary ∧ Role.param.under key = .plain) :
        Json.lookup fields' key = Json.lookup fields key := by
      have hfound := hfields.lookup hkey.1
      rw [hrole, hkey.2] at hfound
      exact hfound.eq_of_plain
    have htype := hplain "type" (by decide)
    have hname : AbiType.componentName fields' = AbiType.componentName fields := by
      rw [AbiType.componentName, AbiType.componentName, hplain "name" (by decide)]
    have hcomponents (text : Text) (path : Option Text) :
        AbiType.ofComponentsField text path fields' =
          AbiType.ofComponentsField text path fields := ofComponentsField_widens hrole hfields
    simp only [AbiType.ofItem, htype, hname, hcomponents]
termination_by structural h => h

theorem ofComponentsField_widens {text : Text} {path : Option Text}
    {fields fields' : List (Text × Json)} {role : Role} (hrole : role = .param) :
    WidensFields role fields fields' →
      AbiType.ofComponentsField text path fields' = AbiType.ofComponentsField text path fields
  | .nil => rfl
  | @WidensFields.kept _ key _ _ _ _ hvalue hrest => by
    rw [AbiType.ofComponentsField, AbiType.ofComponentsField]
    by_cases hkey : key = "components"
    · rw [if_pos hkey, if_pos hkey]
      exact ofComponents_widens (by rw [hrole, hkey]; rfl) hvalue
    · rw [if_neg hkey, if_neg hkey]
      exact ofComponentsField_widens hrole hrest
  | @WidensFields.added _ key value _ rest' _ hnew hrest => by
    have hkey : key ≠ "components" := by
      rintro rfl
      exact hnew (by decide)
    rw [AbiType.ofComponentsField.eq_def _ _ ((key, value) :: rest')]
    dsimp only
    rw [if_neg hkey]
    exact ofComponentsField_widens hrole hrest
termination_by structural h => h

end

theorem parse_widens {type components components' : Json} {path : Option Text}
    (h : Widens .params components components') :
    AbiType.parse type components' path = AbiType.parse type components path := by
  cases type with
  | str text =>
    simp only [AbiType.parse, AbiType.parseText]
    rw [ofComponents_widens rfl h]
  | _ => rfl

section

variable {role : Role} {value value' : Json}

theorem Widens.part_eq (h : Widens role value value') (key : Text)
    (hkey : key ∈ vocabulary ∧ role.under key = .plain) : part value' key = part value key := by
  rw [part, part, h.field_of_plain key hkey]

theorem Widens.textPart_eq (h : Widens role value value') (key : Text)
    (hkey : key ∈ vocabulary ∧ role.under key = .plain) :
    textPart value' key = textPart value key := by
  rw [textPart, textPart, h.part_eq key hkey]

theorem Widens.optionalText_eq (h : Widens role value value') (key : Text)
    (hkey : key ∈ vocabulary ∧ role.under key = .plain) :
    optionalText value' key = optionalText value key := by
  rw [optionalText, optionalText, h.field_of_plain key hkey]

theorem Widens.flagPart_eq (h : Widens role value value') (key : Text)
    (hkey : key ∈ vocabulary ∧ role.under key = .plain) :
    flagPart value' key = flagPart value key := by
  rw [flagPart, flagPart, h.field_of_plain key hkey]

end

/-- Wider items are read as the same parameters. -/
theorem loadParams_widens {ofEvent : Bool} {place : Location} {index : Nat}
    {items items' : List Json} (h : WidensItems .param items items') :
    loadParams ofEvent place index items' = loadParams ofEvent place index items := by
  induction items generalizing items' index with
  | nil =>
    cases h
    rfl
  | cons item rest ih =>
    cases h with
    | @cons _ _ item' _ _ hitem hrest =>
      have hcomponents (type : Json) (path : Option Text) :
          AbiType.parse type ((item'.field? "components").getD .null) path =
            AbiType.parse type ((item.field? "components").getD .null) path := by
        have hfield := hitem.field "components" (by decide)
        apply parse_widens
        generalize item.field? "components" = found at hfield ⊢
        generalize item'.field? "components" = found' at hfield ⊢
        cases hfield with
        | nothing => exact .same
        | value hvalue => exact hvalue
      simp only [loadParams, hcomponents, hitem.part_eq "type" (by decide),
        hitem.optionalText_eq "name" (by decide), hitem.optionalText_eq "internalType" (by decide),
        hitem.flagPart_eq "indexed" (by decide), ih hrest]

section

variable {item item' : Json} (h : Widens .entry item item')
include h

theorem Widens.paramsPart_eq (ofEvent : Bool) (place : Location) (key : Text)
    (hkey : key ∈ vocabulary ∧ Role.entry.under key = .params) :
    paramsPart ofEvent item' place key = paramsPart ofEvent item place key := by
  have hfield := h.field key hkey.1
  rw [hkey.2] at hfield
  rw [paramsPart, paramsPart, listPart, listPart]
  generalize item.field? key = found at hfield ⊢
  generalize item'.field? key = found' at hfield ⊢
  cases hfield with
  | nothing => rfl
  | value hvalue =>
    cases hvalue with
    | same => rfl
    | items hitems => exact loadParams_widens hitems
    | fields _ => rfl

theorem Widens.mutabilityPart_eq : mutabilityPart item' = mutabilityPart item := by
  rw [mutabilityPart, mutabilityPart, h.field_of_plain "stateMutability" (by decide),
    h.flagPart_eq "constant" (by decide), h.flagPart_eq "payable" (by decide)]

theorem Widens.kindOf_eq : kindOf item' = kindOf item := by
  rw [kindOf, kindOf, h.field_of_plain "type" (by decide)]

theorem Widens.loadChecked_eq (kind : EntryKind) (index : Nat) :
    loadChecked kind item' index = loadChecked kind item index := by
  have hname := h.textPart_eq "name" (by decide)
  have hinputs (ofEvent : Bool) (place : Location) :=
    h.paramsPart_eq ofEvent place "inputs" (by decide)
  have houtputs (place : Location) := h.paramsPart_eq false place "outputs" (by decide)
  have hanonymous := h.flagPart_eq "anonymous" (by decide)
  cases kind with
  | receive => rfl
  | _ => simp only [loadChecked, hname, hinputs, houtputs, hanonymous, h.mutabilityPart_eq]

/-- An item that is read is read as the same entry if it is wider. -/
theorem loadEntry_widens {index : Nat} {entry : Entry} (hentry : loadEntry item index = .ok entry) :
    loadEntry item' index = .ok entry := by
  obtain ⟨kind, hkind, hcheck, hentry⟩ := loadEntry_eq_ok.mp hentry
  have hfits := keeps_entry kind item item' h (check_eq_ok.mp hcheck)
  exact loadEntry_eq_ok.mpr ⟨kind, h.kindOf_eq.trans hkind, check_eq_ok.mpr hfits,
    (h.loadChecked_eq kind index).trans hentry⟩

end

theorem loadEntries_widens {items items' : List Json} {index : Nat} {entries : List Entry}
    (h : WidensItems .entry items items') (hentries : loadEntries index items = .ok entries) :
    loadEntries index items' = .ok entries := by
  induction items generalizing items' index entries with
  | nil =>
    cases h
    exact hentries
  | cons item rest ih =>
    simp only [loadEntries, bind_eq_ok, pure_eq_ok, Except.ok.injEq] at hentries
    obtain ⟨entry, hentry, others, hothers, rfl⟩ := hentries
    cases h with
    | cons hitem hrest =>
      rw [loadEntries, loadEntry_widens hitem hentry, ok_bind, ih hrest hothers]
      rfl

section

variable {document document' : Json} (h : Widens .document document document')
include h

theorem Widens.contractName_eq (name : Option Text) :
    contractName document' name = contractName document name := by
  rw [contractName, contractName, h.optionalText_eq "contractName" (by decide)]

theorem Widens.exists_entries {items : List Json} {index : Nat} {entries : List Entry}
    (hitems : abiPart document = .ok items) (hentries : loadEntries index items = .ok entries) :
    ∃ items', abiPart document' = .ok items' ∧ loadEntries index items' = .ok entries := by
  have hfield := h.field "abi" (by decide)
  rw [abiPart_ok hitems] at hfield
  rw [abiPart]
  generalize document'.field? "abi" = found' at hfield ⊢
  cases hfield with
  | value hvalue =>
    cases hvalue with
    | same => exact ⟨items, rfl, hentries⟩
    | items hwider => exact ⟨_, rfl, loadEntries_widens hwider hentries⟩

theorem Widens.bytecodeText_eq : bytecodeText document' = bytecodeText document := by
  have hfield := h.field "bytecode" (by decide)
  rw [bytecodeText, bytecodeText]
  generalize document.field? "bytecode" = found at hfield ⊢
  generalize document'.field? "bytecode" = found' at hfield ⊢
  cases hfield with
  | nothing => rfl
  | value hvalue =>
    have htext := hvalue.textPart_eq "object" (by decide)
    cases hvalue with
    | same => rfl
    | items _ => exact htext
    | fields _ => exact htext

theorem Widens.loadBytecode_eq : loadBytecode document' = loadBytecode document := by
  rw [loadBytecode, loadBytecode, h.bytecodeText_eq]

end

theorem Widens.addressPart_eq {value value' : Json} (h : Widens .network value value') :
    addressPart value' = addressPart value := by
  have htext := h.textPart_eq "address" (by decide)
  cases h with
  | same => rfl
  | items _ => exact htext
  | fields _ => exact htext

theorem loadDeployments_widens {fields fields' : List (Text × Json)}
    (h : WidensFields .networks fields fields') :
    loadDeployments fields' = loadDeployments fields := by
  induction fields generalizing fields' with
  | nil =>
    cases h with
    | nil => rfl
    | added hrecord _ _ => cases hrecord
  | cons field rest ih =>
    cases h with
    | kept hvalue hrest =>
      rw [loadDeployments, loadDeployments, Widens.addressPart_eq hvalue, ih hrest]
    | added hrecord _ _ => cases hrecord

theorem Widens.exists_networks {document document' : Json} (h : Widens .document document document')
    {fields : List (Text × Json)} {deployments : List (Text × Text)}
    (hfields : networksPart document = .ok fields)
    (hdeployments : loadDeployments fields = .ok deployments) :
    ∃ fields', networksPart document' = .ok fields' ∧
      loadDeployments fields' = .ok deployments := by
  have hfield := h.field "networks" (by decide)
  rw [networksPart] at hfields ⊢
  generalize document.field? "networks" = found at hfield hfields
  generalize document'.field? "networks" = found' at hfield ⊢
  cases hfield with
  | nothing => exact ⟨fields, hfields, hdeployments⟩
  | value hvalue =>
    cases hvalue with
    | same => exact ⟨fields, hfields, hdeployments⟩
    | items _ => cases hfields
    | fields hwider =>
      obtain rfl := Except.ok.inj hfields
      exact ⟨_, rfl, (loadDeployments_widens hwider).trans hdeployments⟩

theorem Widens.exists_document {raw raw' document : Json} (h : Widens .document raw raw')
    (hdocument : documentOf raw = .ok document) :
    ∃ document', documentOf raw' = .ok document' ∧ Widens .document document document' := by
  cases h with
  | same => exact ⟨document, hdocument, .same⟩
  | items hitems =>
    obtain rfl := Except.ok.inj hdocument
    exact ⟨_, rfl, .fields (.kept (.items hitems) .nil)⟩
  | fields hfields =>
    obtain rfl := Except.ok.inj hdocument
    exact ⟨_, rfl, .fields hfields⟩

/-- A text stands somewhere in a value; keys do not count. -/
inductive HasText (text : Text) : Json → Prop
  | here : HasText text (.str text)
  | item {item : Json} {items : List Json} : item ∈ items → HasText text item →
      HasText text (.arr items)
  | field {field : Text × Json} {fields : List (Text × Json)} : field ∈ fields →
      HasText text field.2 → HasText text (.obj fields)

theorem checked_iff (value : Json) :
    Checked value ↔ ∀ text, HasText text value → Text.Encodable text := by
  induction value using Json.induct with
  | str word =>
    rw [checked_str]
    exact ⟨fun h text htext => by cases htext; exact h, fun h => h word .here⟩
  | arr items ih =>
    rw [checked_arr]
    constructor
    · rintro h text (_ | ⟨hitem, htext⟩)
      exact (ih _ hitem).mp (h _ hitem) text htext
    · intro h item hitem
      exact (ih item hitem).mpr fun text htext => h text (.item hitem htext)
  | obj fields ih =>
    rw [checked_obj]
    constructor
    · rintro h text (_ | _ | ⟨hfield, htext⟩)
      exact (ih _ hfield).mp (h _ hfield) text htext
    · intro h field hfield
      exact (ih field hfield).mpr fun text htext => h text (.field hfield htext)
  | _ => exact ⟨fun _ text htext => (by cases htext), fun _ => rfl⟩

/-- Under the keys that the check of texts starts from, every text has a UTF-8 form. -/
def TextsEncodable (raw : Json) : Prop :=
  ∀ document, documentOf raw = .ok document → ∀ key ∈ textKeys, ∀ value,
    document.field? key = some value → ∀ text, HasText text value → Text.Encodable text

theorem textsEncodable_iff {raw document : Json} (hdocument : documentOf raw = .ok document) :
    TextsEncodable raw ↔ checkTexts document = .ok () := by
  constructor
  · intro h
    refine forM_eq_ok.mpr fun key hkey => ?_
    cases hvalue : document.field? key with
    | none => rfl
    | some value =>
      exact checkText_eq_ok.mpr ((checked_iff value).mpr (h document hdocument key hkey value hvalue))
  · intro h document' hdocument' key hkey value hvalue
    obtain rfl := Except.ok.inj (hdocument.symm.trans hdocument')
    exact (checked_iff value).mp (checked_of_checkTexts h hkey hvalue)

theorem exists_of_checkTexts_eq_error {document : Json} {fault : Fault}
    (h : checkTexts document = .error fault) :
    ∃ path, fault = .invalidArtifact path .unencodable := by
  obtain ⟨-, key, -, -, -, h⟩ := forM_eq_error.mp h
  cases hvalue : document.field? key with
  | none => simp [hvalue] at h
  | some value =>
    simp only [hvalue, checkText] at h
    split at h
    · cases h
    · exact ⟨_, (Except.error.inj h).symm⟩

/-- Foreign fields do not change what is loaded, unless they bring in a text without a UTF-8 form
below one of the keys that the check of texts starts from; then the document is refused. -/
theorem load_widens {raw raw' : Json} {name : Option Text} {artifact : Artifact}
    (h : load raw name = .ok artifact) (hwider : Widens .document raw raw') :
    (TextsEncodable raw' → load raw' name = .ok artifact) ∧
      (¬ TextsEncodable raw' →
        ∃ path, load raw' name = .error (.invalidArtifact path .unencodable)) := by
  simp only [load, Draft.ofJson, bind_eq_ok, pure_eq_ok, Except.ok.injEq] at h
  obtain ⟨draft, ⟨document, hdocument, ⟨⟩, hshape, ⟨⟩, -, title, htitle, items, hitems,
    entries, hentries, ⟨⟩, hsole, bytecode, hbytecode, rfl⟩, fields, hfields, deployments,
    hdeployments, rfl⟩ := h
  obtain ⟨document', hdocument', hwider⟩ := hwider.exists_document hdocument
  have hshape' : check Shape.document document' [] = .ok () :=
    check_eq_ok.mpr (keeps_document document document' hwider (check_eq_ok.mp hshape))
  obtain ⟨items', hitems', hentries'⟩ := hwider.exists_entries hitems hentries
  obtain ⟨fields', hfields', hdeployments'⟩ := hwider.exists_networks hfields hdeployments
  rw [textsEncodable_iff hdocument', load, Draft.ofJson, hdocument', ok_bind, hshape', ok_bind]
  cases htexts : checkTexts document' with
  | ok done =>
    refine ⟨fun _ => ?_, fun hne => absurd rfl hne⟩
    rw [ok_bind, hwider.contractName_eq, htitle, ok_bind, hitems', ok_bind, hentries', ok_bind,
      hsole, ok_bind, hwider.loadBytecode_eq, hbytecode, ok_bind, pure_eq_ok, ok_bind, hfields',
      ok_bind, hdeployments', ok_bind, pure_eq_ok]
  | error fault =>
    obtain ⟨path, rfl⟩ := exists_of_checkTexts_eq_error htexts
    exact ⟨fun hok => (by cases hok), fun _ => ⟨path, rfl⟩⟩

/-- A contract with a receive function, and more fields in its entry. -/
def receiving (more : List (Text × Json)) : Json :=
  .obj [("contractName", .str "X"), ("abi", .arr [.obj (("type", .str "receive") :: more)])]

theorem widens_receiving {key : Text} (hkey : key ∉ vocabulary) (value : Json) :
    Widens .document (receiving []) (receiving [(key, value)]) := by
  have hentry : Widens .entry (.obj [("type", .str "receive")])
      (.obj [("type", .str "receive"), (key, value)]) :=
    .fields (.kept .same (.added rfl hkey .nil))
  exact .fields (.kept .same (.kept (.items (.cons hentry .nil)) .nil))

/-- A note that has a UTF-8 form is ignored. -/
theorem load_widens_note :
    load (receiving [("note", .str "paid")]) none = .ok ⟨"X", [.receive ⟨0⟩], none, []⟩ := by
  have hwider : Widens .document (receiving []) (receiving [("note", .str "paid")]) :=
    widens_receiving (by decide) _
  exact (load_widens rfl hwider).1 ((textsEncodable_iff rfl).mpr rfl)

/-- A note that has none is not. -/
theorem load_note_refused :
    Widens .document (receiving []) (receiving [("note", .str [⟨0xD800, by decide⟩])]) ∧
      load (receiving []) none = .ok ⟨"X", [.receive ⟨0⟩], none, []⟩ ∧
      load (receiving [("note", .str [⟨0xD800, by decide⟩])]) none =
        .error (.invalidArtifact "abi[0].note" .unencodable) :=
  ⟨widens_receiving (by decide) _, rfl, rfl⟩

end AbiBindings.Artifact
