import AbiBindings.Proofs.Artifact.Parts
import AbiBindings.Proofs.Bytecode.Marks
import AbiBindings.Proofs.Json.Setting

/-!
Parts that can be spelled in more than one way: the name inside the document or outside, entries of
functions with or without their kind, bytecode and addresses as they are or inside an object, and
digits with or without a mark. Whichever way is taken, the part loads the same, and what is refused
in one spelling is refused in the other.
-/

namespace AbiBindings.Artifact

open Text (Encodable)
open Outcome

variable {document document' : Json}

/-- The name that fields give a contract, if any, is one that a document may have. -/
def OwnNamePasses (fields : List (Text × Json)) : Prop :=
  ∀ value, Json.lookup fields "contractName" = some value →
    ∃ own, value = .str own ∧ own ≠ [] ∧ Encodable own

theorem nameLoads_given {fields : List (Text × Json)} (h : OwnNamePasses fields) {name : Text}
    (hne : name ≠ []) {title : Text} :
    NameLoads (.obj fields) (some name) title ↔ Encodable name ∧ title = name := by
  have hpasses : FieldPasses (.obj fields) "contractName" Shape.name := by
    intro value hvalue
    obtain ⟨own, rfl, hown, hencodable⟩ := h value hvalue
    exact ⟨fits_name.mpr ⟨own, rfl, hown⟩, checked_str.mpr hencodable⟩
  have hown : ∃ own, OptionalText (.obj fields) "contractName" own := by
    cases hlookup : Json.lookup fields "contractName" with
    | none => exact ⟨none, .absent hlookup⟩
    | some value =>
      obtain ⟨own, rfl, -⟩ := h value hlookup
      exact ⟨some own, .given hlookup⟩
  rw [nameLoads_iff, contractName_given hne]
  simp only [hpasses, hown, true_and]

theorem nameLoads_own {name : Text} (hne : name ≠ [])
    (h : document.field? "contractName" = some (.str name)) {title : Text} :
    NameLoads document none title ↔ Encodable name ∧ title = name := by
  rw [nameLoads_iff, fieldPasses_iff h, contractName_own, h, fits_name, checked_str]
  simp only [Option.some.injEq, Json.str.injEq]
  constructor
  · rintro ⟨⟨-, hencodable⟩, rfl, -⟩
    exact ⟨hencodable, rfl⟩
  · rintro ⟨hencodable, rfl⟩
    exact ⟨⟨⟨title, rfl, hne⟩, hencodable⟩, rfl, hne, hencodable⟩

section

variable {item item' : Json}

theorem textPart_congr {key : Text} (h : item'.field? key = item.field? key) :
    textPart item' key = textPart item key := by
  rw [textPart, textPart, part, part, h]

theorem paramsPart_congr {key : Text} (h : item'.field? key = item.field? key) (ofEvent : Bool)
    (place : Location) :
    paramsPart ofEvent item' place key = paramsPart ofEvent item place key := by
  rw [paramsPart, paramsPart, listPart, listPart, h]

theorem mutabilityPart_congr (h : item'.field? "stateMutability" = item.field? "stateMutability")
    (hconstant : item'.field? "constant" = item.field? "constant")
    (hpayable : item'.field? "payable" = item.field? "payable") :
    mutabilityPart item' = mutabilityPart item := by
  rw [mutabilityPart, mutabilityPart, flagPart, flagPart, flagPart, flagPart, h, hconstant,
    hpayable]

end

section

variable {entry entry' : List (Text × Json)}

/-- An entry is that of a function whether it says so or not. -/
theorem loadEntry_typed (habsent : Json.lookup entry "type" = none)
    (hset : Json.Sets "type" (.str "function") entry entry') (index : Nat) (loaded : Entry) :
    loadEntry (.obj entry') index = .ok loaded ↔ loadEntry (.obj entry) index = .ok loaded := by
  have hother (key : Text) (hne : key ≠ "type") :
      (Json.obj entry').field? key = (Json.obj entry).field? key := hset.lookup_of_ne hne
  have hname := hother "name" (by decide)
  have hinputs := hother "inputs" (by decide)
  have houtputs := hother "outputs" (by decide)
  have hmutability := hother "stateMutability" (by decide)
  have hconstant := hother "constant" (by decide)
  have hpayable := hother "payable" (by decide)
  have hkind : kindOf (.obj entry) = .ok .function := by
    simp only [kindOf, Json.field?, habsent]
  have hkind' : kindOf (.obj entry') = .ok .function := by
    simp only [kindOf, Json.field?, hset.lookup_self]
    rfl
  have hfits : Fits (.obj entry') (Shape.ofEntry .function) ↔
      Fits (.obj entry) (Shape.ofEntry .function) := by
    simp only [Json.field?] at hname hinputs houtputs hmutability hconstant hpayable
    simp only [Fits, Shape.ofEntry, Json.follows_mk, Kind.admits, List.forall_mem_cons, Rule.Holds,
      Json.obj.injEq, forall_eq', Json.field?, hname, hinputs, houtputs, hmutability, hconstant,
      hpayable, Option.mem_some_iff, List.not_mem_nil, false_implies, implies_true]
  have hloaded : loadChecked .function (.obj entry') index =
      loadChecked .function (.obj entry) index := by
    simp only [loadChecked, textPart_congr hname, paramsPart_congr hinputs,
      paramsPart_congr houtputs, mutabilityPart_congr hmutability hconstant hpayable]
  simp only [loadEntry_eq_ok, hkind, hkind', Except.ok.injEq, exists_eq_left', check_eq_ok, hfits,
    hloaded]

theorem checked_typed (habsent : Json.lookup entry "type" = none)
    (hset : Json.Sets "type" (.str "function") entry entry') :
    Checked (.obj entry') ↔ Checked (.obj entry) := by
  rw [checked_obj, checked_obj]
  apply hset.forall_mem_iff
  · intro old hold
    rw [habsent] at hold
    cases hold
  · exact fun _ => checked_str.mpr (Text.encodable_ofString _)

end

/-- Entries load the same if one of them is replaced by another that does. -/
theorem loadEntries_replace {item item' : Json} (h : ∀ index loaded,
      loadEntry item' index = .ok loaded ↔ loadEntry item index = .ok loaded)
    (before after : List Json) (index : Nat) (entries : List Entry) :
    loadEntries index (before ++ item' :: after) = .ok entries ↔
      loadEntries index (before ++ item :: after) = .ok entries := by
  induction before generalizing index entries with
  | nil => simp only [List.nil_append, loadEntries, bind_eq_ok, h]
  | cons first rest ih => simp only [List.cons_append, loadEntries, bind_eq_ok, ih]

/-- An ABI list loads the same whether an entry of a function gives its kind or not. -/
theorem abiLoads_typed {before after : List Json} {entry entry' : List (Text × Json)}
    (habsent : Json.lookup entry "type" = none)
    (hset : Json.Sets "type" (.str "function") entry entry')
    (h : document.field? "abi" = some (.arr (before ++ .obj entry :: after)))
    (h' : document'.field? "abi" = some (.arr (before ++ .obj entry' :: after)))
    (entries : List Entry) : AbiLoads document' entries ↔ AbiLoads document entries := by
  have hobject (fields : List (Text × Json)) : Fits (.obj fields) (Shape.ofItem .object) :=
    Json.follows_mk.mpr ⟨by simp [Kind.admits], by simp⟩
  have hread : (∃ items, abiPart document' = .ok items ∧ loadEntries 0 items = .ok entries) ↔
      ∃ items, abiPart document = .ok items ∧ loadEntries 0 items = .ok entries := by
    simp only [abiPart, h, h', Except.ok.injEq, exists_eq_left']
    exact loadEntries_replace (loadEntry_typed habsent hset) before after 0 entries
  rw [abiLoads_iff, abiLoads_iff, fieldPasses_iff h, fieldPasses_iff h', fits_listOf, fits_listOf,
    hread]
  simp only [Json.arr.injEq, exists_eq_left', checked_arr, List.forall_mem_append,
    List.forall_mem_cons, hobject, checked_typed habsent hset]

/-- A value follows one of the two shapes if it is a text, or an object with a text. -/
theorem fits_textOrField {key : Text} {value : Json} :
    (∃ shape ∈ Shape.textOrField key, Fits value shape) ↔
      (∃ text, value = .str text) ∨
        ∃ fields text, value = .obj fields ∧ Json.lookup fields key = some (.str text) := by
  constructor
  · rintro ⟨shape, hshape, hfits⟩
    exact exists_of_textOrField hshape hfits
  · rintro (htext | ⟨fields, text, rfl, hlookup⟩)
    · exact ⟨_, List.mem_cons_self, fits_text.mpr htext⟩
    · refine ⟨_, List.mem_cons_of_mem _ List.mem_cons_self, Json.follows_mk.mpr ⟨?_, ?_⟩⟩
      · simp [Kind.admits]
      · have hfits : Json.Follows Shape.ofItem (.str text) Shape.text := fits_text.mpr ⟨text, rfl⟩
        simp [Rule.Holds, Json.field?, hlookup, hfits]

/-- The text of the bytecode is read, whether there is one or not. -/
theorem loadBytecode_eq (document : Json) :
    loadBytecode document = bytecodeText document >>= fun text =>
      (Bytecode.ofText? text).mapError fun fault =>
        .invalidArtifact (Location.write [.key "bytecode"]) (.bytecode fault) := by
  rw [loadBytecode]
  cases bytecodeText document with
  | error fault => rfl
  | ok text => cases text <;> rfl

theorem bytecodeLoads_str {code : Text} (h : document.field? "bytecode" = some (.str code))
    (bytecode : Option Bytecode) :
    BytecodeLoads document bytecode ↔
      Checked (.str code) ∧ Bytecode.ofText? code = .ok bytecode := by
  have hfits : Fits (.str code) bytecodeShape := by
    obtain ⟨shape, hshape, hshapeFits⟩ := fits_textOrField.mpr (.inl ⟨code, rfl⟩)
    exact fits_anyOf.mpr ⟨shape, List.mem_cons_of_mem _ hshape, hshapeFits⟩
  have htext : bytecodeText document = .ok code := by
    rw [bytecodeText, h]
  rw [bytecodeLoads_iff, fieldPasses_iff h, loadBytecode_eq, htext, ok_bind, mapError_eq_ok]
  simp only [hfits, true_and]

theorem bytecodeLoads_obj {object : List (Text × Json)} {code : Text}
    (h : document.field? "bytecode" = some (.obj object))
    (hobject : Json.lookup object "object" = some (.str code)) (bytecode : Option Bytecode) :
    BytecodeLoads document bytecode ↔
      Checked (.obj object) ∧ Bytecode.ofText? code = .ok bytecode := by
  have hfits : Fits (.obj object) bytecodeShape := by
    obtain ⟨shape, hshape, hshapeFits⟩ := fits_textOrField.mpr (.inr ⟨object, code, rfl, hobject⟩)
    exact fits_anyOf.mpr ⟨shape, List.mem_cons_of_mem _ hshape, hshapeFits⟩
  have htext : bytecodeText document = .ok code := by
    rw [bytecodeText, h]
    exact textPart_eq_ok.mpr hobject
  rw [bytecodeLoads_iff, fieldPasses_iff h, loadBytecode_eq, htext, ok_bind, mapError_eq_ok]
  simp only [hfits, true_and]

theorem checked_marked {mark code : Text} (hmark : mark ∈ Bytecode.marks) :
    Checked (.str (mark ++ code)) ↔ Checked (.str code) := by
  rw [checked_str, checked_str, Text.encodable_append]
  simp only [Bytecode.encodable_of_mem_marks hmark, true_and]

theorem checked_object_marked {mark code : Text} {object object' : List (Text × Json)}
    (hmark : mark ∈ Bytecode.marks) (hobject : Json.lookup object "object" = some (.str code))
    (hset : Json.Sets "object" (.str (mark ++ code)) object object') :
    Checked (.obj object') ↔ Checked (.obj object) := by
  rw [checked_obj, checked_obj]
  apply hset.forall_mem_iff
  · intro old hold
    rw [hobject, Option.some.injEq] at hold
    rw [← hold, checked_marked hmark]
  · intro habsent
    rw [hobject] at habsent
    cases habsent

/-- Networks load the same if the value of one is replaced by another with its address. -/
theorem loadDeployments_replace {value value' : Json} (h : addressPart value' = addressPart value)
    (network : Text) (before after : List (Text × Json)) :
    loadDeployments (before ++ (network, value') :: after) =
      loadDeployments (before ++ (network, value) :: after) := by
  induction before with
  | nil => simp only [List.nil_append, loadDeployments, h]
  | cons first rest ih => simp only [List.cons_append, loadDeployments, ih]

theorem fits_networksShape {networks : List (Text × Json)} :
    Fits (.obj networks) networksShape ↔
      ∀ field ∈ networks, ∃ shape ∈ Shape.textOrField "address", Fits field.2 shape := by
  rw [Fits, networksShape, Json.follows_mk]
  simp only [Option.mem_some_iff, forall_eq', Kind.admits, true_and, List.mem_singleton, forall_eq,
    Rule.Holds, Json.obj.injEq]
  exact forall₂_congr fun _ _ => fits_anyOf

/-- Networks load the same whether an address stands as it is or inside an object. -/
theorem networksLoad_address {before after : List (Text × Json)} {network address : Text}
    (h : document.field? "networks" =
      some (.obj (before ++ (network, .str address) :: after)))
    (h' : document'.field? "networks" =
      some (.obj (before ++ (network, .obj [("address", .str address)]) :: after)))
    (deployments : List (Text × Text)) :
    NetworksLoad document' deployments ↔ NetworksLoad document deployments := by
  have hplain : ∃ shape ∈ Shape.textOrField "address", Fits (.str address) shape :=
    fits_textOrField.mpr (.inl ⟨address, rfl⟩)
  have hobject : ∃ shape ∈ Shape.textOrField "address",
      Fits (.obj [("address", .str address)]) shape :=
    fits_textOrField.mpr (.inr ⟨_, address, rfl, Json.lookup_cons_self _ _ _⟩)
  have hchecked : Checked (.obj [("address", .str address)]) ↔ Checked (.str address) := by
    rw [checked_obj, List.forall_mem_singleton]
  have haddress : addressPart (.obj [("address", .str address)]) = addressPart (.str address) := rfl
  have hread : (∃ fields, networksPart document' = .ok fields ∧
        loadDeployments fields = .ok deployments) ↔
      ∃ fields, networksPart document = .ok fields ∧
        loadDeployments fields = .ok deployments := by
    simp only [networksPart, h, h', Except.ok.injEq, exists_eq_left',
      loadDeployments_replace haddress]
  rw [networksLoad_iff, networksLoad_iff, fieldPasses_iff h, fieldPasses_iff h',
    fits_networksShape, fits_networksShape, checked_obj, checked_obj, hread]
  simp only [List.forall_mem_append, List.forall_mem_cons, hplain, hobject, hchecked]

end AbiBindings.Artifact
