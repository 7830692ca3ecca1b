import AbiBindings.Proofs.Contract.Naming
import AbiBindings.Proofs.Identifier.Growth

/-!
Names stay when an ABI grows. If the functions of an artifact come first among those of a larger
one and no function that is added has an alias, each of them keeps its identifier, signature and
selector. The same holds for the identifiers of events and of errors, which have no aliases. What
else is in the two artifacts, and where it stands, does not matter.
-/

namespace AbiBindings

open Outcome

/-- What tells an entry from the others of its kind: its name and the types of its inputs. -/
structure Heading where
  name : Text
  types : List AbiType
deriving DecidableEq

namespace Heading

def signature (heading : Heading) : Text := Signature.canonical heading.name heading.types

def toNamed (heading : Heading) : Identifier.Named := ⟨heading.name, heading.signature⟩

end Heading

def FunctionEntry.heading (entry : FunctionEntry) : Heading :=
  ⟨entry.name, Contract.typesOf entry.inputs⟩

def EventEntry.heading (entry : EventEntry) : Heading :=
  ⟨entry.name, Contract.typesOf entry.inputs⟩

def ErrorEntry.heading (entry : ErrorEntry) : Heading :=
  ⟨entry.name, Contract.typesOf entry.inputs⟩

namespace Contract

section

variable {ε ν : Type} {snake : Bool} {reserved : List Text} {aliases : List (Text × Text)}
variable {headingOf : ε → Heading} {entryOf : ν → ε} {identifierOf : ν → Text}
variable {old new : List ε} {records records' : List ν}

/-- Records with their headings are the headings with the identifiers assigned to them. -/
theorem map_heading_eq_zip (hentries : records.map entryOf = old)
    (hidentifiers : records.map identifierOf =
      Identifier.assign snake reserved aliases (old.map fun e => (headingOf e).toNamed)) :
    records.map (fun n => (headingOf (entryOf n), identifierOf n)) =
      (old.map headingOf).zip
        (Identifier.assign snake reserved aliases ((old.map headingOf).map Heading.toNamed)) := by
  have hheadings : records.map (fun n => headingOf (entryOf n)) = old.map headingOf := by
    rw [← hentries, List.map_map]
    rfl
  have hnamed : (old.map headingOf).map Heading.toNamed =
      old.map fun e => (headingOf e).toNamed := by
    rw [List.map_map]
    rfl
  rw [hnamed, ← hidentifiers, ← hheadings, List.zip_map']

theorem map_heading_prefix (hentries : records.map entryOf = old)
    (hidentifiers : records.map identifierOf =
      Identifier.assign snake reserved aliases (old.map fun e => (headingOf e).toNamed))
    (hentries' : records'.map entryOf = new)
    (hidentifiers' : records'.map identifierOf =
      Identifier.assign snake reserved aliases (new.map fun e => (headingOf e).toNamed))
    {added : List Heading} (hgrown : new.map headingOf = old.map headingOf ++ added)
    (hnone : ∀ heading ∈ added, Json.lookup aliases heading.signature = none) :
    records.map (fun n => (headingOf (entryOf n), identifierOf n)) <+:
      records'.map (fun n => (headingOf (entryOf n), identifierOf n)) := by
  rw [map_heading_eq_zip hentries hidentifiers, map_heading_eq_zip hentries' hidentifiers', hgrown]
  exact Identifier.zip_assign_append_prefix snake reserved aliases Heading.toNamed _ hnone

end

section

variable {artifact old new : Artifact} {aliases aliases' : List (Text × Text)}
variable {contract contract' : Contract}

/-- A function has the signature of its heading, and the selector is computed from it. -/
theorem selector_ofArtifact (h : ofArtifact artifact aliases = .ok contract) :
    ∀ f ∈ contract.functions, f.signature = f.entry.heading.signature ∧
      Signature.selector f.entry.heading.signature = .ok f.selector := by
  obtain ⟨-, functions, hfunctions, -, -, -, -, rfl⟩ := ofArtifact_eq_ok.mp h
  intro f hf
  obtain ⟨p, -, hnamed⟩ := exists_of_forall₂ (mapM_eq_ok.mp hfunctions) hf
  obtain ⟨selector, hselector, rfl⟩ := nameFunction_eq_ok.mp hnamed
  exact ⟨rfl, hselector⟩

/-- A heading and an identifier, with the signature and the selector that follow from them. -/
def withSelector (p : Heading × Text) : Heading × Text × Text × Text :=
  (p.1, p.2, p.1.signature, (Signature.selector p.1.signature).toOption.getD [])

theorem map_withSelector (h : ofArtifact artifact aliases = .ok contract) :
    contract.functions.map (fun f => (f.entry.heading, f.identifier, f.signature, f.selector)) =
      (contract.functions.map fun f => (f.entry.heading, f.identifier)).map withSelector := by
  rw [List.map_map, List.map_inj_left]
  intro f hf
  obtain ⟨hsignature, hselector⟩ := selector_ofArtifact h f hf
  simp [withSelector, hsignature, hselector, Except.toOption]

/-- Functions that come first in a larger ABI keep their identifiers, signatures and selectors, if
none of the added ones has an alias. Events and errors that come first keep their identifiers,
whatever the aliases are. In both contracts all entries of the ABI are named, in order. -/
theorem ofArtifact_growth (hold : ofArtifact old aliases = .ok contract)
    (hnew : ofArtifact new aliases' = .ok contract') :
    NamesEntriesOf old contract ∧ NamesEntriesOf new contract' ∧
    (aliases' = aliases →
      ∀ added, new.functions.map FunctionEntry.heading =
          old.functions.map FunctionEntry.heading ++ added →
        (∀ heading ∈ added, Json.lookup aliases heading.signature = none) →
        contract.functions.map (fun f => (f.entry.heading, f.identifier, f.signature, f.selector))
          <+: contract'.functions.map fun f =>
            (f.entry.heading, f.identifier, f.signature, f.selector)) ∧
    (old.events.map EventEntry.heading <+: new.events.map EventEntry.heading →
      contract.events.map (fun e => (e.entry.heading, e.identifier)) <+:
        contract'.events.map fun e => (e.entry.heading, e.identifier)) ∧
    (old.errors.map ErrorEntry.heading <+: new.errors.map ErrorEntry.heading →
      contract.errors.map (fun e => (e.entry.heading, e.identifier)) <+:
        contract'.errors.map fun e => (e.entry.heading, e.identifier)) := by
  refine ⟨namesEntriesOf_ofArtifact hold, namesEntriesOf_ofArtifact hnew, ?functions, ?events,
    ?errors⟩
  case functions =>
    rintro rfl added hgrown hnone
    obtain ⟨hentries, hidentifiers⟩ := functions_ofArtifact hold
    obtain ⟨hentries', hidentifiers'⟩ := functions_ofArtifact hnew
    rw [map_withSelector hold, map_withSelector hnew]
    apply List.IsPrefix.map
    exact map_heading_prefix hentries hidentifiers hentries' hidentifiers' hgrown hnone
  case events =>
    rintro ⟨added, hgrown⟩
    obtain ⟨hentries, hidentifiers⟩ := events_ofArtifact hold
    obtain ⟨hentries', hidentifiers'⟩ := events_ofArtifact hnew
    exact map_heading_prefix hentries hidentifiers hentries' hidentifiers' hgrown.symm
      fun _ _ => rfl
  case errors =>
    rintro ⟨added, hgrown⟩
    obtain ⟨hentries, hidentifiers⟩ := errors_ofArtifact hold
    obtain ⟨hentries', hidentifiers'⟩ := errors_ofArtifact hnew
    exact map_heading_prefix hentries hidentifiers hentries' hidentifiers' hgrown.symm
      fun _ _ => rfl

end

/-- Two functions that are one in snake case, the second with an alias, and an event. -/
def small : Artifact where
  name := "Small"
  abi := [.function ⟨0, "getX", [], [], .view⟩, .event ⟨1, "Moved", [], false⟩,
    .function ⟨2, "get_x", [], [], .view⟩]
  bytecode := none
  deployments := []

def large : Artifact where
  name := "Large"
  abi := [.error ⟨0, "Moved", []⟩, .function ⟨1, "getX", [], [], .payable⟩, .receive ⟨2⟩,
    .function ⟨3, "get_x", [], [], .view⟩,
    .function ⟨4, "getX", [⟨"key", .elementary (.bool none), false, none⟩], [], .view⟩,
    .event ⟨5, "Moved", [], true⟩, .event ⟨6, "moved", [], false⟩]
  bytecode := none
  deployments := []

theorem ofArtifact_growth_large :
    ∃ contract contract', ofArtifact small [("get_x()", "fetch")] = .ok contract ∧
      ofArtifact large [("get_x()", "fetch")] = .ok contract' ∧
      NamesEntriesOf small contract ∧ NamesEntriesOf large contract' ∧
      contract.functions.map (fun f => (f.entry.heading, f.identifier, f.signature, f.selector))
        <+: (contract'.functions.map fun f =>
          (f.entry.heading, f.identifier, f.signature, f.selector)) ∧
      contract.events.map (fun e => (e.entry.heading, e.identifier)) <+:
        (contract'.events.map fun e => (e.entry.heading, e.identifier)) ∧
      contract.errors.map (fun e => (e.entry.heading, e.identifier)) <+:
        (contract'.errors.map fun e => (e.entry.heading, e.identifier)) := by
  obtain ⟨contract, hold⟩ : ∃ contract,
      ofArtifact small [("get_x()", "fetch")] = .ok contract := ⟨_, rfl⟩
  obtain ⟨contract', hnew⟩ : ∃ contract',
      ofArtifact large [("get_x()", "fetch")] = .ok contract' := ⟨_, rfl⟩
  obtain ⟨hentries, hentries', hfunctions, hevents, herrors⟩ := ofArtifact_growth hold hnew
  refine ⟨contract, contract', hold, hnew, hentries, hentries', ?functions, ?events, ?errors⟩
  case functions =>
    exact hfunctions rfl [⟨"getX", [.elementary (.bool none)]⟩] (by decide) (by decide)
  case events => exact hevents ⟨[⟨"moved", []⟩], by decide⟩
  case errors => exact herrors List.nil_prefix

end Contract

end AbiBindings
