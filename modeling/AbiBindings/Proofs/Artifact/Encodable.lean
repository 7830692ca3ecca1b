import AbiBindings.Proofs.AbiType.Encodable
import AbiBindings.Proofs.Artifact.Loading
import AbiBindings.Proofs.Bytecode.Links
import AbiBindings.Proofs.Json.Sorted

/-!
The texts of a loaded artifact. Loading refuses every text without a UTF-8 form among the values
that it reads, so the name, the entries with all names in their types, the bytecode and the
addresses have one. The names of networks are keys, and keys are not looked at.
-/

namespace AbiBindings

open Text (Encodable)
open Outcome

namespace Artifact

/-- No text in the value holds a surrogate; keys do not count. -/
def Checked (value : Json) : Prop := unencodableIn? value = none

theorem checked_str {text : Text} : Checked (.str text) ↔ Encodable text := by
  rw [Checked, unencodableIn?, ← Text.isEncodable_iff]
  split
  · next h => simp [h]
  · next h => simp [h]

theorem checked_items {index : Nat} {items : List Json} :
    unencodableInItems? index items = none ↔ ∀ item ∈ items, Checked item := by
  induction items generalizing index with
  | nil => simp [unencodableInItems?]
  | cons item rest ih =>
    have hrest := @ih (index + 1)
    rw [unencodableInItems?, List.forall_mem_cons, ← hrest, Checked]
    cases unencodableIn? item with
    | none => simp
    | some location => simp

theorem checked_arr {items : List Json} : Checked (.arr items) ↔ ∀ item ∈ items, Checked item := by
  rw [Checked, unencodableIn?, checked_items]

theorem checked_fields {fields : List (Text × Json)} :
    unencodableInFields? fields = none ↔ ∀ field ∈ fields, Checked field.2 := by
  induction fields with
  | nil => simp [unencodableInFields?]
  | cons field rest ih =>
    obtain ⟨key, value⟩ := field
    rw [unencodableInFields?, List.forall_mem_cons, ← ih, Checked]
    cases unencodableIn? value with
    | none => simp
    | some location => simp

theorem checked_obj {fields : List (Text × Json)} :
    Checked (.obj fields) ↔ ∀ field ∈ fields, Checked field.2 := by
  rw [Checked, unencodableIn?, checked_fields]

/-- What stands under a key of a checked value is checked. -/
theorem Checked.field {value part : Json} (h : Checked value) {key : Text}
    (hfield : value.field? key = some part) : Checked part := by
  cases value with
  | obj fields => exact checked_obj.mp h _ (Json.mem_of_lookup hfield)
  | _ => cases hfield

theorem checkText_eq_ok {value : Json} {place : Location} :
    checkText value place = .ok () ↔ Checked value := by
  rw [checkText, Checked]
  cases unencodableIn? value with
  | none => simp
  | some location => simp

/-- The values under the checked keys of a document are checked. -/
theorem checked_of_checkTexts {document value : Json} (h : checkTexts document = .ok ())
    {key : Text} (hkey : key ∈ textKeys) (hvalue : document.field? key = some value) :
    Checked value := by
  have hchecked := forM_eq_ok.mp h key hkey
  rw [hvalue] at hchecked
  exact checkText_eq_ok.mp hchecked

end Artifact

namespace AbiType

open Artifact (Checked)

theorem Suffixed.namesEncodable {item type : AbiType} {w : Text} (h : Suffixed item w type)
    (hitem : item.NamesEncodable) : type.NamesEncodable := by
  induction h with
  | done => exact hitem
  | anyLength _ ih => exact ih hitem
  | ofLength _ _ _ ih => exact ih hitem

theorem ComponentName.encodable {field : Option Json} {name : Text} (h : ComponentName field name)
    (hchecked : ∀ value, field = some value → Checked value) : Encodable name := by
  cases h with
  | absent => exact Text.encodable_nil
  | unset _ => exact Text.encodable_nil
  | text => exact Artifact.checked_str.mp (hchecked _ rfl)

mutual

/-- The names in a type come from the components that it was read with. -/
theorem Derives.namesEncodable {components : Json} {w : Text} {type : AbiType} :
    Derives components w type → Checked components → type.NamesEncodable
  | .suffixed hbase hsuffix, hchecked =>
    hsuffix.namesEncodable (DerivesBase.namesEncodable hbase hchecked)
termination_by structural h => h

theorem DerivesBase.namesEncodable {components : Json} {w : Text} {type : AbiType} :
    DerivesBase components w type → Checked components → type.NamesEncodable
  | .named _ _, _ => namesEncodable_elementary _
  | .emptyList, _ => namesEncodable_unnamedTuple.mpr (by simp)
  | .list hlist, _ => namesEncodable_unnamedTuple.mpr (DerivesList.namesEncodable hlist)
  | .tuple hparts, hchecked =>
    namesEncodable_tuple.mpr
      (DerivesComponents.namesEncodable hparts (Artifact.checked_arr.mp hchecked))
termination_by structural h => h

theorem DerivesList.namesEncodable {w : Text} {types : List AbiType} :
    DerivesList w types → ∀ type ∈ types, type.NamesEncodable
  | .one htype => by
    have h := Derives.namesEncodable htype rfl
    simpa using h
  | .more htype hlist => by
    have hfirst := Derives.namesEncodable htype rfl
    have hothers := DerivesList.namesEncodable hlist
    exact List.forall_mem_cons.mpr ⟨hfirst, hothers⟩
termination_by structural h => h

theorem DerivesComponents.namesEncodable {items : List Json} {parts : List (Text × AbiType)} :
    DerivesComponents items parts → (∀ item ∈ items, Checked item) →
      ∀ part ∈ parts, Encodable part.1 ∧ part.2.NamesEncodable
  | .nil, _ => by simp
  | @DerivesComponents.cons fields text name _ _ _ _ hname htype hrest, hchecked => by
    rw [List.forall_mem_cons] at hchecked
    have hcomponents : Checked (componentsOf fields) := by
      rw [componentsOf]
      cases hlookup : Json.lookup fields "components" with
      | none => rfl
      | some value => exact hchecked.1.field hlookup
    have hencodable : Encodable name := hname.encodable fun _ hfield => hchecked.1.field hfield
    have hfirst := Derives.namesEncodable htype hcomponents
    have hothers := DerivesComponents.namesEncodable hrest hchecked.2
    exact List.forall_mem_cons.mpr ⟨⟨hencodable, hfirst⟩, hothers⟩
termination_by structural h => h

end

end AbiType

structure Param.Written (param : Param) : Prop where
  name : Encodable param.name
  supported : param.type.Supported
  names : param.type.NamesEncodable

namespace Artifact

def nameOf : Entry → Text
  | .function entry => entry.name
  | .event entry => entry.name
  | .error entry => entry.name
  | .constructor _ | .fallback _ | .receive _ => []

theorem SpellsParam.written {ofEvent : Bool} {item : Json} {param : Param}
    (h : SpellsParam ofEvent item param) (hchecked : Checked item) : param.Written where
  name := by
    obtain ⟨name, hname, heq⟩ := h.name
    rw [heq]
    cases hname with
    | absent _ => exact Text.encodable_nil
    | given hfield => exact checked_str.mp (hchecked.field hfield)
  supported := h.supported
  names := by
    obtain ⟨text, path, -, htype⟩ := h.type
    have hcomponents : Checked ((item.field? "components").getD .null) := by
      cases hfield : item.field? "components" with
      | none => rfl
      | some value => exact hchecked.field hfield
    obtain ⟨written, rfl⟩ := AbiType.exists_text_of_parse htype
    exact (AbiType.parse_eq_ok.mp htype).1.namesEncodable hcomponents

theorem SpellsEntry.written {item : Json} {index : Nat} {entry : Entry}
    (h : SpellsEntry item index entry) (hchecked : Checked item) :
    Encodable (nameOf entry) ∧ ∀ param ∈ paramsOf entry, param.Written := by
  constructor
  · cases h with
    | function _ hname _ _ _ => exact checked_str.mp (hchecked.field hname)
    | constructor _ _ _ => exact Text.encodable_nil
    | event _ hname _ => exact checked_str.mp (hchecked.field hname)
    | error _ hname _ => exact checked_str.mp (hchecked.field hname)
    | fallback _ _ => exact Text.encodable_nil
    | receive _ => exact Text.encodable_nil
  · intro param hparam
    obtain ⟨key, items, ofEvent, hitems, spelled, hspelled, hspells⟩ := h.exists_item hparam
    exact hspells.written (checked_arr.mp (hchecked.field hitems) spelled hspelled)

structure Written (artifact : Artifact) : Prop where
  name : Encodable artifact.name
  entryName : ∀ entry ∈ artifact.abi, Encodable (nameOf entry)
  param : ∀ entry ∈ artifact.abi, ∀ param ∈ paramsOf entry, param.Written
  bytecode : ∀ code, artifact.bytecode = some code →
    Encodable code.hex ∧ ∀ ref ∈ code.linkRefs, Encodable ref.placeholder
  address : ∀ network ∈ artifact.deployments, Encodable network.2

/-- Whichever name is chosen, it is checked. -/
theorem encodable_contractName {document : Json} {name : Option Text} {text : Text}
    (h : contractName document name = .ok text) : Encodable text :=
  checked_str.mp (checkText_eq_ok.mp (contractName_ok h).2)

theorem encodable_bytecodeText {document : Json} (hdocument : checkTexts document = .ok ())
    {text : Text} (h : bytecodeText document = .ok text) : Encodable text := by
  have hkey : ("bytecode" : Text) ∈ textKeys := by decide
  have hchecked (value : Json) (hvalue : document.field? "bytecode" = some value) :
      Checked value := checked_of_checkTexts hdocument hkey hvalue
  rw [bytecodeText] at h
  split at h
  · cases h
    exact Text.encodable_nil
  · cases h
    exact Text.encodable_nil
  · next hvalue =>
    cases h
    exact checked_str.mp (hchecked _ hvalue)
  · next value _ _ hvalue =>
    exact checked_str.mp ((hchecked value hvalue).field (textPart_eq_ok.mp h))

theorem digitsOf_subset (text : Text) : Bytecode.digitsOf text ⊆ text := by
  have htrim : Text.trim text ⊆ text := (Text.trim_isInfix text).subset
  rw [Bytecode.digitsOf]
  split
  · exact List.Subset.trans (List.drop_subset 2 _) htrim
  · exact htrim

theorem encodable_bytecode {text : Text} (htext : Encodable text) {code : Bytecode}
    (h : Bytecode.ofText? text = .ok (some code)) :
    Encodable code.hex ∧ ∀ ref ∈ code.linkRefs, Encodable ref.placeholder := by
  have hdigits : Encodable (Bytecode.digitsOf text) := htext.of_subset (digitsOf_subset text)
  have hlinks := Bytecode.links_of_ofText? h
  constructor
  · obtain ⟨-, -, refs, -, rfl⟩ := Bytecode.ofText?_eq_some.mp h
    simp [hdigits]
  · intro ref href
    -- a placeholder is a piece of the digits, since it has a site
    obtain ⟨offset, hoffset⟩ := List.exists_mem_of_ne_nil _ (hlinks.ordered.nonempty ref href)
    rw [← hlinks.stands ref href offset hoffset]
    apply hdigits.of_subset
    exact List.Subset.trans (List.take_subset _ _) (List.drop_subset _ _)

theorem encodable_loadBytecode {document : Json} (hdocument : checkTexts document = .ok ())
    {code : Bytecode} (h : loadBytecode document = .ok (some code)) :
    Encodable code.hex ∧ ∀ ref ∈ code.linkRefs, Encodable ref.placeholder := by
  obtain ⟨text, htext, hcode⟩ := loadBytecode_ok h
  exact encodable_bytecode (encodable_bytecodeText hdocument htext) hcode

theorem encodable_address {address : Text} (h : isAddress address = true) : Encodable address := by
  obtain ⟨digits, hdigits, heq⟩ := exists_digits_of_isAddress h
  have hall : Encodable digits :=
    fun c hc => CodePoint.isSurrogate_of_isHexDigit (hdigits.isHexDigit c hc)
  rcases heq with rfl | rfl
  · simp [hall]
  · simp [hall]

/-- Loading looks at every text that is read, and only the names of networks are keys. -/
theorem written_of_load {raw : Json} {name : Option Text} {artifact : Artifact}
    (h : load raw name = .ok artifact) : artifact.Written := by
  obtain ⟨document, -, -, hspelled⟩ := load_ok h
  have hentry : ∀ entry ∈ artifact.abi,
      Encodable (nameOf entry) ∧ ∀ param ∈ paramsOf entry, param.Written := by
    intro entry hentry
    obtain ⟨position, hposition⟩ := List.mem_iff_getElem?.mp hentry
    obtain ⟨items, hitems, item, hitem, hspells⟩ := hspelled.exists_item hposition
    have hkey : ("abi" : Text) ∈ textKeys := by decide
    have hchecked := checked_of_checkTexts hspelled.texts hkey hitems
    exact hspells.written (checked_arr.mp hchecked item hitem)
  constructor
  · exact encodable_contractName hspelled.name
  · exact fun entry hmem => (hentry entry hmem).1
  · exact fun entry hmem => (hentry entry hmem).2
  · intro code hcode
    exact encodable_loadBytecode hspelled.texts (hcode ▸ hspelled.bytecode)
  · intro network hnetwork
    obtain ⟨fields, -, hdeployments⟩ := hspelled.deployments
    obtain ⟨field, -, -, -, haddress⟩ := exists_of_forall₂ hdeployments hnetwork
    exact encodable_address haddress

end Artifact

end AbiBindings
