import AbiBindings.Generation
import AbiBindings.Proofs.Client.Imports

/-!
The name of the contract class among the other names of a module. The class comes last, so whatever
it shares a name with is gone for the members that use it. Reserved names rule this out for all that
a module imports or binds, but for the linker.
-/

namespace AbiBindings

open Identifier

namespace Client

/-- The names that the heading imports from the standard library. -/
def typingNames : List Text := ["Any", "List", "NamedTuple", "Optional", "Tuple"]

example : "from typing import " ++ Text.join ", " typingNames =
    ("from typing import Any, List, NamedTuple, Optional, Tuple" : Text) := by
  simp (disch := rfl) only [typingNames, Text.ofString_eq]
  rfl

/-- The names that a module gives values or makes classes of besides the contract class. -/
def moduleNames : List Text :=
  ["BYTECODE", "LINK_REFERENCES", "NETWORKS", "ERRORS", "Events", "Errors"]

theorem mem_reservedForContract :
    ∀ name ∈ typingNames ++ moduleNames, name ∈ reservedForContract := by decide

/-- Of the parts of the runtime package the linker alone is not reserved. -/
theorem eq_link_bytecode : ∀ name ∈ runtimeWords, name ∉ reservedForContract →
    name = "link_bytecode" := by decide

/-- The contract class has the name of something that its module binds or imports in one case only:
it is called like the linker, and the module imports the linker. Whether it is called so depends on
the contract's own name, in which code points that no identifier holds count as underscores. -/
theorem identifier_mem_imports_iff {artifact : Artifact} {aliases : List (Text × Text)}
    {contract : Contract} (hcontract : Contract.ofArtifact artifact aliases = .ok contract)
    {package : Text} {name : Option Text} {client : Client}
    (h : ofContract contract package name = .ok client) :
    (∀ name ∈ typingNames ++ moduleNames, client.identifier ≠ name) ∧
    (client.identifier ∈ client.imports ↔
      replaceForeign (Text.trim client.contractName) = "link_bytecode" ∧
        client.deployment.linkRefs ≠ []) := by
  have hidentifier := identifier_ofContract hcontract h
  have hfree : client.identifier ∉ reservedForContract := by
    rw [hidentifier]
    exact (usable_sanitize endsInLetter_of_mem_reservedForContract _ _).not_reserved
  have hlinker : client.identifier = "link_bytecode" ↔
      replaceForeign (Text.trim client.contractName) = "link_bytecode" := by
    rw [hidentifier]
    exact sanitize_eq_iff (by decide) (by decide) (by decide) (by decide) (by decide)
  constructor
  · rintro name hname rfl
    exact hfree (mem_reservedForContract _ hname)
  · rw [← hlinker, ← link_bytecode_mem_imports]
    constructor
    · intro hmem
      have heq := eq_link_bytecode _ (mem_runtimeWords client _ hmem) hfree
      exact ⟨heq, heq ▸ hmem⟩
    · rintro ⟨heq, hmem⟩
      exact heq ▸ hmem

/-- A contract with an open library that is renamed so that it takes the name of the linker. -/
theorem identifier_mem_imports_iff_capturing :
    ∃ contract client, Contract.ofArtifact Contract.capturing [] = .ok contract ∧
      ofContract contract "runtime" (some "link bytecode") = .ok client ∧
      (∀ name ∈ typingNames ++ moduleNames, client.identifier ≠ name) ∧
      client.identifier ∈ client.imports := by
  obtain ⟨contract, client, hcontract, h, hname, hrefs⟩ : ∃ contract client,
      Contract.ofArtifact Contract.capturing [] = .ok contract ∧
      ofContract contract "runtime" (some "link bytecode") = .ok client ∧
      client.contractName = "link bytecode" ∧ client.deployment.linkRefs ≠ [] :=
    ⟨_, _, rfl, rfl, rfl, nofun⟩
  obtain ⟨hfree, hiff⟩ := identifier_mem_imports_iff hcontract h
  have hlinker : replaceForeign (Text.trim client.contractName) = "link_bytecode" := by
    rw [hname]
    decide
  exact ⟨contract, client, hcontract, h, hfree, hiff.mpr ⟨hlinker, hrefs⟩⟩

/-- A document whose contract is called like the linker and has an open library. -/
def linker : Json :=
  .obj [("contractName", .str "link_bytecode"), ("abi", .arr []),
    ("bytecode", .str ("0x60" ++ "__Math__________________________________"))]

theorem exists_identifier_mem_imports :
    ∃ client, Generation.client linker Config.standard = .ok client ∧
      client.identifier ∈ client.imports := by
  refine ⟨_, rfl, ?_⟩
  decide

end Client

end AbiBindings
