import AbiBindings.Proofs.Artifact.Parts
import AbiBindings.Proofs.Client.Naming
import AbiBindings.Proofs.Generation.Totality

/-!
Renaming a contract. A name from outside can be given when the document is loaded or when the
module is put together. Loading puts it in the artifact, naming derives the identifier of the
contract from it and looks at it nowhere else, and assembly can still replace both; so it does not
matter at which end the name comes in.
-/

namespace AbiBindings

open Text (Encodable)
open Outcome

namespace Artifact

def renamed (artifact : Artifact) (name : Text) : Artifact := { artifact with name }

/-- A document that loads under its own name loads under any other that can be written. -/
theorem load_renamed {raw : Json} {artifact : Artifact} (h : load raw none = .ok artifact)
    {name : Text} (hne : name ≠ []) (hencodable : Encodable name) :
    load raw (some name) = .ok (artifact.renamed name) := by
  obtain ⟨fields, hfields⟩ : ∃ fields, ∀ name?, load raw name? = load (.obj fields) name? := by
    cases raw with
    | arr items => exact ⟨_, fun _ => rfl⟩
    | obj fields => exact ⟨fields, fun _ => rfl⟩
    | _ => cases h
  rw [hfields, load_obj_eq_ok] at h
  rw [hfields, load_obj_eq_ok]
  obtain ⟨hown, -⟩ := contractName_own.mp h.name.chosen
  have hname : contractName (.obj fields) (some name) = .ok name :=
    (contractName_given hne).mpr ⟨⟨_, .given hown⟩, hencodable, rfl⟩
  exact ⟨⟨h.name.passes, hname⟩, h.abi, h.bytecode, h.networks⟩

end Artifact

namespace Contract

def renamed (contract : Contract) (name : Text) : Contract :=
  { contract with artifact := contract.artifact.renamed name, identifier := identifierOf name }

/-- Of what naming makes, only the identifier of the contract depends on its name. -/
theorem ofArtifact_renamed (artifact : Artifact) (name : Text) (aliases : List (Text × Text)) :
    ofArtifact (artifact.renamed name) aliases =
      (ofArtifact artifact aliases).map fun contract => contract.renamed name := by
  have hcheck : checkAllDuplicates (artifact.renamed name) = checkAllDuplicates artifact := rfl
  have hfunctions : (artifact.renamed name).functions = artifact.functions := rfl
  have hevents : (artifact.renamed name).events = artifact.events := rfl
  have herrors : (artifact.renamed name).errors = artifact.errors := rfl
  simp only [ofArtifact, signedFunctions, signedEvents, signedErrors, hcheck, hfunctions, hevents,
    herrors]
  refine bind_eq_map_bind fun _ => bind_eq_map_bind fun functions => ?_
  exact bind_eq_map_bind fun events => bind_eq_map_bind fun errors => rfl

end Contract

/-- A contract that was renamed makes the module that assembly renames. -/
theorem Client.ofContract_renamed (contract : Contract) (package : Text) {name : Text}
    (hne : name ≠ []) :
    ofContract (contract.renamed name) package none = ofContract contract package (some name) := by
  obtain ⟨c, rest, rfl⟩ := List.exists_cons_of_ne_nil hne
  rfl

namespace Generation

/-- The module for a document with a name from outside for loading and one for assembly. -/
def clientAs (raw : Json) (loaded assembled : Option Text) (aliases : List (Text × Text))
    (package : Text) : Except Fault Client := do
  let artifact ← Artifact.load raw loaded
  let contract ← Contract.ofArtifact artifact aliases
  Client.ofContract contract package assembled

section

variable {raw : Json} {artifact : Artifact} (h : Artifact.load raw none = .ok artifact)
variable {name : Text} (hne : name ≠ []) (hencodable : Encodable name)
include h hne hencodable

/-- A name makes one module, or one refusal of duplicates, whether it is given to loading or to
assembly. -/
theorem renamings_agree (aliases : List (Text × Text)) (package : Text) :
    clientAs raw (some name) none aliases package =
        clientAs raw none (some name) aliases package ∧
      ((∃ client, clientAs raw none (some name) aliases package = .ok client ∧
          client.contractName = name ∧ client.identifier = Contract.identifierOf name) ∨
        ∃ entry signature positions, clientAs raw none (some name) aliases package =
          .error (.duplicateEntry entry signature positions)) := by
  have hlate : clientAs raw none (some name) aliases package =
      Contract.ofArtifact artifact aliases >>= fun contract =>
        Client.ofContract contract package (some name) := by
    rw [clientAs, h, ok_bind]
  constructor
  · rw [hlate, clientAs, Artifact.load_renamed h hne hencodable, ok_bind,
      Contract.ofArtifact_renamed]
    cases Contract.ofArtifact artifact aliases with
    | error fault => rfl
    | ok contract => exact Client.ofContract_renamed contract package hne
  · rw [hlate]
    rcases Contract.named_or_duplicate h aliases with ⟨contract, hcontract⟩ | hduplicate
    · obtain ⟨client, hclient⟩ := Client.exists_ofContract
        (Contract.written_of_ofArtifact hcontract (Artifact.written_of_load h)) package (some name)
      have hnames := (Client.assembles_ofContract hclient).names
      obtain ⟨c, rest, rfl⟩ := List.exists_cons_of_ne_nil hne
      obtain ⟨hname, hidentifier⟩ := Prod.mk.inj hnames
      left
      rw [hcontract, ok_bind]
      exact ⟨client, hclient, hname.symm, hidentifier.symm⟩
    · obtain ⟨entry, signature, positions, hfail⟩ := hduplicate
      right
      rw [hfail, error_bind]
      exact ⟨entry, signature, positions, rfl⟩

end

/-- A method with an alias, in a contract that is renamed to a reserved word. -/
theorem renamings_agree_keyword :
    let raw : Json := .obj [("contractName", .str "Box"), ("abi", .arr [
      .obj [("name", .str "open"), ("inputs", .arr [.obj [("type", .str "uint8")]])]])]
    let aliases : List (Text × Text) := [("open(uint8)", "lift")]
    (∃ artifact, Artifact.load raw none = .ok artifact) ∧ Encodable "class" ∧
      ∃ client, clientAs raw (some "class") none aliases "runtime" = .ok client ∧
        clientAs raw none (some "class") aliases "runtime" = .ok client ∧
        client.contractName = "class" ∧ client.identifier = "class_" := by
  intro raw aliases
  obtain ⟨artifact, hload⟩ : ∃ artifact, Artifact.load raw none = .ok artifact := ⟨_, rfl⟩
  have hencodable : Encodable "class" := Text.encodable_ofString "class"
  obtain ⟨hagree, houtcome⟩ := renamings_agree hload (by decide) hencodable aliases "runtime"
  obtain ⟨client, hclient⟩ : ∃ client,
      clientAs raw none (some "class") aliases "runtime" = .ok client := ⟨_, rfl⟩
  rcases houtcome with ⟨client', hclient', hname, hidentifier⟩ |
    ⟨entry, signature, positions, hfail⟩
  · obtain rfl := Except.ok.inj (hclient.symm.trans hclient')
    exact ⟨⟨artifact, hload⟩, hencodable, client, hagree.trans hclient, hclient, hname,
      hidentifier⟩
  · rw [hclient] at hfail
    cases hfail

end Generation

end AbiBindings
