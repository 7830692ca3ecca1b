import AbiBindings.Generation
import AbiBindings.Proofs.Artifact.Reordering
import AbiBindings.Proofs.Config.Aliases
import AbiBindings.Proofs.Text.Order

/-!
What the order of things does to a generated module: nothing, where it does not matter. The fields
of objects in a document are looked up by their keys, and aliases by their signatures; the aliases
that no function has are reported by increasing signature.
-/

namespace AbiBindings

open Json (Reordered)
open Outcome

/-- Two lists of aliases give each signature the same alias, or both none. -/
def SameAliases (aliases aliases' : List (Text × Text)) : Prop :=
  ∀ signature, Json.lookup aliases' signature = Json.lookup aliases signature

/-- The order in which signatures are given their aliases makes no difference, if each is there
once. -/
theorem SameAliases.of_perm {config config' : Config}
    (hperm : config.methodAliases.Perm config'.methodAliases)
    (hnodup : (config.methodAliases.map Prod.fst).Nodup) :
    SameAliases config.aliases config'.aliases := by
  have hnodup' : (config'.methodAliases.map Prod.fst).Nodup :=
    (hperm.map Prod.fst).nodup_iff.mp hnodup
  intro signature
  rw [Config.aliases_of_nodup hnodup, Config.aliases_of_nodup hnodup',
    Json.lookup_perm hperm hnodup]

section

variable {aliases aliases' : List (Text × Text)} (h : SameAliases aliases aliases')
include h

theorem SameAliases.mem_signatures (signature : Text) :
    signature ∈ aliases'.map Prod.fst ↔ signature ∈ aliases.map Prod.fst := by
  rw [← not_iff_not, ← Json.lookup_eq_none, ← Json.lookup_eq_none, h]

theorem Identifier.claimAliases_congr (reserved taken : List Text) (entries : List Named) :
    claimAliases reserved aliases' taken entries = claimAliases reserved aliases taken entries := by
  induction entries generalizing taken with
  | nil => rfl
  | cons entry rest ih =>
    rw [claimAliases, claimAliases, h]
    split
    · simp only [ih]
    · rw [ih]

theorem Identifier.assign_congr (snake : Bool) (reserved : List Text) (entries : List Named) :
    assign snake reserved aliases' entries = assign snake reserved aliases entries := by
  rw [assign, assign, claimAliases_congr h]

theorem Contract.functionIdentifiers_congr (entries : List Signed) :
    functionIdentifiers aliases' entries = functionIdentifiers aliases entries :=
  Identifier.assign_congr h true _ _

theorem Contract.ofArtifact_congr (artifact : Artifact) :
    ofArtifact artifact aliases' = ofArtifact artifact aliases := by
  rw [ofArtifact, ofArtifact, functionIdentifiers_congr h]

theorem Journal.ofIgnoredAliases_congr (artifact : Artifact) :
    ofIgnoredAliases artifact aliases' = ofIgnoredAliases artifact aliases := by
  rw [ofIgnoredAliases, ofIgnoredAliases]
  congr 1
  apply Text.sortDistinct_congr
  intro signature
  rw [List.mem_filter, List.mem_filter, h.mem_signatures]

theorem Journal.ofIdentifiers_congr (snake : Bool) (reserved : List Text)
    (entries : List Contract.Signed) (identifiers : List Text) :
    ofIdentifiers snake reserved aliases' entries identifiers =
      ofIdentifiers snake reserved aliases entries identifiers := by
  have hlookup (entry : Contract.Signed) := h entry.signature
  simp only [ofIdentifiers, hlookup]

theorem Journal.ofNaming_congr (artifact : Artifact) :
    ofNaming artifact aliases' = ofNaming artifact aliases := by
  simp only [ofNaming, Contract.ofArtifact_congr h, Contract.functionIdentifiers_congr h,
    ofIgnoredAliases_congr h, ofIdentifiers_congr h]

theorem Generation.notesOfLoaded_congr (artifact : Artifact) (package : Text)
    (name : Option Text) :
    notesOfLoaded artifact aliases' package name = notesOfLoaded artifact aliases package name := by
  rw [notesOfLoaded, notesOfLoaded, Journal.ofNaming_congr h, Contract.ofArtifact_congr h]

end

namespace Generation

/-- Rearranged documents that can be used make one module. -/
theorem client_rearranges {raw raw' : Json} (h : Artifact.Rearranges raw raw')
    (hdistinct : raw.Distinct) {config : Config} {made : Client}
    (hmade : client raw config = .ok made) : client raw' config = .ok made := by
  obtain ⟨artifact, hload, hmade⟩ := bind_eq_ok.mp hmade
  rw [client, Artifact.load_rearranges h hdistinct hload, ok_bind]
  exact hmade

section

variable {config config' : Config} (hpackage : config'.runtimePackage = config.runtimePackage)
variable (hname : config'.contractName = config.contractName)
variable (haliases : SameAliases config.aliases config'.aliases)
include hpackage hname haliases

theorem client_congr (raw : Json) : client raw config' = client raw config := by
  simp only [client, hpackage, hname, Contract.ofArtifact_congr haliases]

theorem notes_congr (raw : Json) : notes raw config' = notes raw config := by
  simp only [notes, hpackage, hname, notesOfLoaded_congr haliases]

end

/-- A module depends neither on the order of fields in the document, apart from that of the
networks, nor on the order in which aliases are given; and nor do the notes of the run on the
latter. -/
theorem order_irrelevant (raw : Json) (config : Config) :
    (∀ raw' made, raw.Distinct → Artifact.Rearranges raw raw' → client raw config = .ok made →
      ∃ made', client raw' config = .ok made' ∧ made' = made ∧
        made'.fingerprint = made.fingerprint ∧
        ∀ format : Format, format.render made' = format.render made) ∧
    ∀ config' : Config, config'.runtimePackage = config.runtimePackage →
      config'.contractName = config.contractName →
      SameAliases config.aliases config'.aliases →
      client raw config' = client raw config ∧ notes raw config' = notes raw config := by
  constructor
  · intro raw' made hdistinct hrearranges hmade
    exact ⟨made, client_rearranges hrearranges hdistinct hmade, rfl, rfl, fun _ => rfl⟩
  · intro config' hpackage hname haliases
    exact ⟨client_congr hpackage hname haliases raw, notes_congr hpackage hname haliases raw⟩

/-- A document with a constructor and two networks, and the same with fields of the document, of the
constructor, of its parameter and of a network in another order; and two ignored aliases, given in
either order. -/
theorem order_irrelevant_constructor :
    let address : Json := .str "0x0000000000000000000000000000000000000001"
    let raw : Json := .obj [("contractName", .str "Box"),
      ("abi", .arr [.obj [("type", .str "constructor"),
        ("inputs", .arr [.obj [("name", .str "size"), ("type", .str "uint8")]])]]),
      ("networks", .obj [("5", address), ("1", .obj [("links", .null), ("address", address)])])]
    let raw' : Json := .obj [("contractName", .str "Box"),
      ("networks", .obj [("5", address), ("1", .obj [("address", address), ("links", .null)])]),
      ("abi", .arr [.obj [
        ("inputs", .arr [.obj [("type", .str "uint8"), ("name", .str "size")]]),
        ("type", .str "constructor")]])]
    let config := { Config.standard with methodAliases := [("f()", "g"), ("e()", "h")] }
    let config' := { Config.standard with methodAliases := [("e()", "h"), ("f()", "g")] }
    ∃ made, client raw config = .ok made ∧ client raw' config = .ok made ∧
      client raw config' = .ok made ∧ notes raw config' = notes raw config := by
  intro address raw raw' config config'
  obtain ⟨made, hmade⟩ : ∃ made, client raw config = .ok made := ⟨_, rfl⟩
  have hdistinct : raw.Distinct := by
    simp only [raw, address, Json.distinct_obj, Json.distinct_arr, Json.distinct_str,
      Json.distinct_null, List.forall_mem_cons, List.not_mem_nil, false_implies, implies_true]
    decide
  have hparam : Reordered (.obj [("name", .str "size"), ("type", .str "uint8")])
      (.obj [("type", .str "uint8"), ("name", .str "size")]) :=
    .of_perm (.swap _ _ _)
  have hentry : Reordered
      (.obj [("type", .str "constructor"),
        ("inputs", .arr [.obj [("name", .str "size"), ("type", .str "uint8")]])])
      (.obj [("inputs", .arr [.obj [("type", .str "uint8"), ("name", .str "size")]]),
        ("type", .str "constructor")]) := by
    refine .obj ?_ ?_ (.swap _ _ _)
    · rfl
    · exact .cons (.str _) (.cons (.arr (.cons hparam .nil)) .nil)
  have hnetwork : Reordered (.obj [("links", .null), ("address", address)])
      (.obj [("address", address), ("links", .null)]) :=
    .of_perm (.swap _ _ _)
  have hrearranges : Artifact.Rearranges raw raw' := by
    constructor
    · refine .obj ?_ ?_ (.cons _ (.swap _ _ _))
      · rfl
      · refine .cons (.refl _) (.cons (.arr (.cons hentry .nil)) (.cons ?_ .nil))
        refine .obj ?_ ?_ (.refl _)
        · rfl
        · exact .cons (.refl _) (.cons hnetwork .nil)
    · intro fields fields' hfields hfields'
      cases hfields
      cases hfields'
      rfl
  have haliases : SameAliases config.aliases config'.aliases :=
    .of_perm (List.Perm.swap _ _ _) (by decide)
  obtain ⟨hdocument, hconfig⟩ := order_irrelevant raw config
  obtain ⟨made', hmade', rfl, -⟩ := hdocument raw' made hdistinct hrearranges hmade
  obtain ⟨hclient, hnotes⟩ := hconfig config' rfl rfl haliases
  exact ⟨made', hmade, hmade', hclient.trans hmade, hnotes⟩

end Generation

end AbiBindings
