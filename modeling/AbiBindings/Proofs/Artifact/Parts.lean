import AbiBindings.Proofs.Artifact.Encodable
import AbiBindings.Proofs.Artifact.Shape

/-!
Loading, part by part. A document loads exactly if the name, the ABI list, the bytecode and the
networks each do, and each of them is read from what stands under one key: nothing that is said
under another key has a say in it.
-/

namespace AbiBindings.Artifact

open Text (Encodable)
open Outcome

variable {document document' : Json} {name : Option Text}

/-- What stands under a key, if anything does, fits a shape and has no text without a UTF-8 form. -/
def FieldPasses (document : Json) (key : Text) (shape : Shape) : Prop :=
  ∀ value, document.field? key = some value → Fits value shape ∧ Checked value

theorem FieldPasses.congr {key : Text} (h : document'.field? key = document.field? key)
    (shape : Shape) : FieldPasses document' key shape ↔ FieldPasses document key shape := by
  rw [FieldPasses, FieldPasses, h]

theorem fieldPasses_iff {key : Text} {shape : Shape} {value : Json}
    (h : document.field? key = some value) :
    FieldPasses document key shape ↔ Fits value shape ∧ Checked value := by
  simp [FieldPasses, h]

def bytecodeShape : Shape :=
  .mk none [.anyOf (.mk (some .null) [] :: Shape.textOrField "object")]

def networksShape : Shape :=
  .mk (some .object) [.values (.mk none [.anyOf (Shape.textOrField "address")])]

/-- The shape of a document is that of the fields that are read. -/
theorem fits_document {fields : List (Text × Json)} :
    Fits (.obj fields) Shape.document ↔
      ((Json.lookup fields "abi").isSome ∧
        ∀ value, Json.lookup fields "abi" = some value → Fits value (Shape.listOf .object)) ∧
      (∀ value, Json.lookup fields "contractName" = some value → Fits value Shape.name) ∧
      (∀ value, Json.lookup fields "bytecode" = some value → Fits value bytecodeShape) ∧
      ∀ value, Json.lookup fields "networks" = some value → Fits value networksShape := by
  rw [Fits, Shape.document, Json.follows_mk]
  simp only [Option.mem_some_iff, Kind.admits, true_and, List.forall_mem_cons,
    List.not_mem_nil, false_implies, implies_true, and_true, Rule.Holds, Json.obj.injEq, forall_eq',
    Json.field?]
  constructor
  · rintro ⟨hrequired, hname, habi, hbytecode, hnetworks⟩
    exact ⟨⟨hrequired, habi⟩, hname, hbytecode, hnetworks⟩
  · rintro ⟨⟨hrequired, habi⟩, hname, hbytecode, hnetworks⟩
    exact ⟨hrequired, hname, habi, hbytecode, hnetworks⟩

theorem checkTexts_eq_ok : checkTexts document = .ok () ↔
    ∀ key ∈ textKeys, ∀ value, document.field? key = some value → Checked value := by
  rw [checkTexts, forM_eq_ok]
  refine forall₂_congr fun key _ => ?_
  cases document.field? key with
  | none => simp
  | some value => simp [checkText_eq_ok]

/-- Without a name from outside, the document has the name. -/
theorem contractName_own {title : Text} :
    contractName document none = .ok title ↔
      document.field? "contractName" = some (.str title) ∧ title ≠ [] ∧ Encodable title := by
  simp only [contractName, bind_eq_ok, optionalText_eq_ok]
  constructor
  · rintro ⟨own, hown, hchosen⟩
    cases hown with
    | absent _ => cases hchosen
    | @given text hfield =>
      cases text with
      | nil => cases hchosen
      | cons c rest =>
        obtain ⟨⟨⟩, hchecked, htext⟩ := bind_eq_ok.mp hchosen
        obtain rfl := Except.ok.inj htext
        exact ⟨hfield, List.cons_ne_nil c rest, checked_str.mp (checkText_eq_ok.mp hchecked)⟩
  · rintro ⟨hfield, hne, hencodable⟩
    refine ⟨some title, .given hfield, ?_⟩
    obtain ⟨c, rest, rfl⟩ := List.exists_cons_of_ne_nil hne
    exact bind_eq_ok.mpr ⟨(), checkText_eq_ok.mpr (checked_str.mpr hencodable), rfl⟩

/-- A name from outside is taken if it has a UTF-8 form, whatever name the document has. -/
theorem contractName_given {given title : Text} (hne : given ≠ []) :
    contractName document (some given) = .ok title ↔
      (∃ own, OptionalText document "contractName" own) ∧ Encodable given ∧ title = given := by
  obtain ⟨c, rest, rfl⟩ := List.exists_cons_of_ne_nil hne
  simp only [contractName, bind_eq_ok, optionalText_eq_ok]
  constructor
  · rintro ⟨own, hown, hchosen⟩
    obtain ⟨⟨⟩, hchecked, htext⟩ := bind_eq_ok.mp hchosen
    obtain rfl := Except.ok.inj htext
    exact ⟨⟨own, hown⟩, checked_str.mp (checkText_eq_ok.mp hchecked), rfl⟩
  · rintro ⟨⟨own, hown⟩, hencodable, rfl⟩
    exact ⟨own, hown,
      bind_eq_ok.mpr ⟨(), checkText_eq_ok.mpr (checked_str.mpr hencodable), rfl⟩⟩

@[mk_iff]
structure NameLoads (document : Json) (name : Option Text) (title : Text) : Prop where
  passes : FieldPasses document "contractName" Shape.name
  chosen : contractName document name = .ok title

theorem NameLoads.congr (h : document'.field? "contractName" = document.field? "contractName")
    (title : Text) : NameLoads document' name title ↔ NameLoads document name title := by
  have hname : contractName document' name = contractName document name := by
    simp only [contractName, optionalText, h]
  simp only [nameLoads_iff, FieldPasses.congr h, hname]

@[mk_iff]
structure AbiLoads (document : Json) (entries : List Entry) : Prop where
  passes : FieldPasses document "abi" (Shape.listOf .object)
  read : ∃ items, abiPart document = .ok items ∧ loadEntries 0 items = .ok entries
  sole : EntryKind.singletons.forM (checkSole entries) = .ok ()

theorem AbiLoads.congr (h : document'.field? "abi" = document.field? "abi")
    (entries : List Entry) : AbiLoads document' entries ↔ AbiLoads document entries := by
  have habi : abiPart document' = abiPart document := by
    simp only [abiPart, h]
  simp only [abiLoads_iff, FieldPasses.congr h, habi]

@[mk_iff]
structure BytecodeLoads (document : Json) (bytecode : Option Bytecode) : Prop where
  passes : FieldPasses document "bytecode" bytecodeShape
  read : loadBytecode document = .ok bytecode

theorem BytecodeLoads.congr (h : document'.field? "bytecode" = document.field? "bytecode")
    (bytecode : Option Bytecode) :
    BytecodeLoads document' bytecode ↔ BytecodeLoads document bytecode := by
  have hread : loadBytecode document' = loadBytecode document := by
    simp only [loadBytecode, bytecodeText, textPart, part, h]
  simp only [bytecodeLoads_iff, FieldPasses.congr h, hread]

@[mk_iff]
structure NetworksLoad (document : Json) (deployments : List (Text × Text)) : Prop where
  passes : FieldPasses document "networks" networksShape
  read : ∃ fields, networksPart document = .ok fields ∧ loadDeployments fields = .ok deployments

theorem NetworksLoad.congr (h : document'.field? "networks" = document.field? "networks")
    (deployments : List (Text × Text)) :
    NetworksLoad document' deployments ↔ NetworksLoad document deployments := by
  have hpart : networksPart document' = networksPart document := by
    simp only [networksPart, h]
  simp only [networksLoad_iff, FieldPasses.congr h, hpart]

@[mk_iff]
structure PartsLoad (document : Json) (name : Option Text) (artifact : Artifact) : Prop where
  name : NameLoads document name artifact.name
  abi : AbiLoads document artifact.abi
  bytecode : BytecodeLoads document artifact.bytecode
  networks : NetworksLoad document artifact.deployments

/-- A document passes the checks that come first if what is read of it passes, key by key. -/
theorem checks_eq_ok {fields : List (Text × Json)} :
    (check Shape.document (.obj fields) [] = .ok () ∧ checkTexts (.obj fields) = .ok ()) ↔
      (Json.lookup fields "abi").isSome ∧
      FieldPasses (.obj fields) "contractName" Shape.name ∧
      FieldPasses (.obj fields) "abi" (Shape.listOf .object) ∧
      FieldPasses (.obj fields) "bytecode" bytecodeShape ∧
      FieldPasses (.obj fields) "networks" networksShape := by
  rw [check_eq_ok, fits_document, checkTexts_eq_ok]
  simp only [textKeys, List.forall_mem_cons, List.not_mem_nil, false_implies, implies_true,
    and_true, FieldPasses, Json.field?, forall_and]
  constructor
  · rintro ⟨⟨⟨hpresent, habi⟩, hname, hbytecode, hnetworks⟩, tname, tabi, tbytecode, tnetworks⟩
    exact ⟨hpresent, ⟨hname, tname⟩, ⟨habi, tabi⟩, ⟨hbytecode, tbytecode⟩, hnetworks, tnetworks⟩
  · rintro ⟨hpresent, ⟨hname, tname⟩, ⟨habi, tabi⟩, ⟨hbytecode, tbytecode⟩, hnetworks, tnetworks⟩
    exact ⟨⟨⟨hpresent, habi⟩, hname, hbytecode, hnetworks⟩, tname, tabi, tbytecode, tnetworks⟩

/-- A document loads exactly if its parts do. -/
theorem load_obj_eq_ok {fields : List (Text × Json)} {artifact : Artifact} :
    load (.obj fields) name = .ok artifact ↔ PartsLoad (.obj fields) name artifact := by
  simp only [load, Draft.ofJson, documentOf, ok_bind, bind_eq_ok, pure_eq_ok, Except.ok.injEq]
  constructor
  · rintro ⟨draft, ⟨⟨⟩, hshape, ⟨⟩, htexts, title, htitle, items, hitems, entries, hentries, ⟨⟩,
      hsole, bytecode, hbytecode, rfl⟩, networks, hnetworks, deployments, hdeployments, rfl⟩
    obtain ⟨-, pname, pabi, pbytecode, pnetworks⟩ := checks_eq_ok.mp ⟨hshape, htexts⟩
    exact {
      name := ⟨pname, htitle⟩
      abi := ⟨pabi, ⟨items, hitems, hentries⟩, hsole⟩
      bytecode := ⟨pbytecode, hbytecode⟩
      networks := ⟨pnetworks, networks, hnetworks, hdeployments⟩ }
  · rintro ⟨⟨pname, htitle⟩, ⟨pabi, ⟨items, hitems, hentries⟩, hsole⟩, ⟨pbytecode, hbytecode⟩,
      pnetworks, networks, hnetworks, hdeployments⟩
    have hpresent : (Json.lookup fields "abi").isSome :=
      Option.isSome_iff_exists.mpr ⟨.arr items, abiPart_ok hitems⟩
    obtain ⟨hshape, htexts⟩ := checks_eq_ok.mpr ⟨hpresent, pname, pabi, pbytecode, pnetworks⟩
    exact ⟨_, ⟨(), hshape, (), htexts, _, htitle, items, hitems, _, hentries, (), hsole, _,
      hbytecode, rfl⟩, networks, hnetworks, _, hdeployments, rfl⟩

end AbiBindings.Artifact
