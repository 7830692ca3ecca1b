import AbiBindings.Generation
import AbiBindings.Proofs.Client.Naming
import AbiBindings.Proofs.Client.Source

/-!
Which modules have a fingerprint. Loading refuses surrogates in the texts of a document but not in
its keys, and the keys that reach the module are the names of networks. So these names decide
whether there is a fingerprint, and with it whether there is a source text and whether the JSON of
the module has a UTF-8 form.
-/

namespace AbiBindings

open Text (Encodable)
open Outcome

namespace Artifact

def networkNames (document : Json) : List Text :=
  match document.field? "networks" with
  | some (.obj fields) => fields.map Prod.fst
  | _ => []

theorem networkNames_documentOf {raw document : Json} (h : documentOf raw = .ok document) :
    networkNames document = networkNames raw := by
  cases raw with
  | arr items =>
    cases h
    rfl
  | obj fields =>
    cases h
    rfl
  | _ => cases h

theorem networkNames_networksPart {document : Json} {fields : List (Text × Json)}
    (h : networksPart document = .ok fields) : networkNames document = fields.map Prod.fst := by
  rw [networksPart] at h
  split at h
  · next hfield =>
    cases h
    rw [networkNames, hfield]
    rfl
  · next hfield =>
    cases h
    rw [networkNames, hfield]
  · cases h

/-- The deployments of a loaded artifact are those of the networks in the document, in order. -/
theorem networkNames_of_load {raw : Json} {name : Option Text} {artifact : Artifact}
    (h : load raw name = .ok artifact) :
    artifact.deployments.map Prod.fst = networkNames raw := by
  obtain ⟨document, hdocument, -, hspelled⟩ := load_ok h
  obtain ⟨fields, hfields, hdeployments⟩ := hspelled.deployments
  have hnames : fields.map Prod.fst = artifact.deployments.map Prod.fst := by
    rw [← List.forall₂_eq_eq_eq, List.forall₂_map_left_iff, List.forall₂_map_right_iff]
    exact hdeployments.imp fun _ _ hnetwork => hnetwork.1.symm
  rw [← networkNames_documentOf hdocument, networkNames_networksPart hfields, hnames]

end Artifact

namespace Client

section

variable {client : Client}

/-- Hashing fails only on a text without a UTF-8 form. -/
theorem exists_fingerprint : (∃ fingerprint, client.fingerprint = .ok fingerprint) ↔
    client.toJson.AllEncodable := by
  have hwrite : Encodable (client.toJson.write .compact) ↔ client.toJson.AllEncodable :=
    Json.encodable_write
  rw [← hwrite, ← Text.exists_encode_eq_ok, fingerprint, toJsonText]
  cases Text.encode (client.toJson.write .compact) with
  | ok bytes => simp
  | error place => simp

theorem encodable_fingerprint {fingerprint : Text} (h : client.fingerprint = .ok fingerprint) :
    Encodable fingerprint := by
  rw [Client.fingerprint] at h
  split at h
  · cases h
    simp
  · cases h

/-- There is a source text if there is a fingerprint to write in it. -/
theorem exists_source : (∃ text, client.source = .ok text) ↔
    ∃ fingerprint, client.fingerprint = .ok fingerprint := by
  constructor
  · rintro ⟨text, h⟩
    obtain ⟨fingerprint, hfingerprint, -⟩ := bind_eq_ok.mp h
    exact ⟨fingerprint, hfingerprint⟩
  · rintro ⟨fingerprint, h⟩
    rw [source, h]
    exact ⟨_, rfl⟩

theorem Written.encodable_source (h : client.Written) {text : Text}
    (htext : client.source = .ok text) : Encodable text := by
  obtain ⟨fingerprint, hfingerprint, hparts⟩ := bind_eq_ok.mp htext
  cases hparts
  exact h.encodable_parts (encodable_fingerprint hfingerprint)

theorem encodable_toJsonText {style : Json.Style} :
    Encodable (client.toJsonText style ++ "\n") ↔ client.toJson.AllEncodable := by
  rw [toJsonText, Text.encodable_append, Json.encodable_write]
  simp

end

end Client

namespace Contract

theorem artifact_ofArtifact {artifact : Artifact} {aliases : List (Text × Text)}
    {contract : Contract} (h : ofArtifact artifact aliases = .ok contract) :
    contract.artifact = artifact := by
  obtain ⟨-, functions, -, events, -, errors, -, rfl⟩ := ofArtifact_eq_ok.mp h
  rfl

end Contract

namespace Generation

section

variable {document : Json} {config : Config} {client : Client}

/-- What is generated under an acceptable configuration holds surrogates only in the names of
networks. -/
theorem written_of_client (hconfig : config.validated = .ok config)
    (h : Generation.client document config = .ok client) : client.Written := by
  obtain ⟨artifact, hload, h⟩ := bind_eq_ok.mp h
  obtain ⟨contract, hcontract, h⟩ := bind_eq_ok.mp h
  have hwritten := Contract.written_of_ofArtifact hcontract (Artifact.written_of_load hload)
  exact Client.written_ofContract h hwritten (Config.encodable_runtimePackage hconfig)

theorem networks_of_client (h : Generation.client document config = .ok client) :
    client.deployment.networks.map Prod.fst = Artifact.networkNames document := by
  obtain ⟨artifact, hload, h⟩ := bind_eq_ok.mp h
  obtain ⟨contract, hcontract, h⟩ := bind_eq_ok.mp h
  rw [← Artifact.networkNames_of_load hload, (Client.assembles_ofContract h).deployment,
    Contract.artifact_ofArtifact hcontract]
  rfl

/-- The JSON of a generated module is free of surrogates if the names of networks are. -/
theorem allEncodable_toJson (hconfig : config.validated = .ok config)
    (h : Generation.client document config = .ok client) :
    client.toJson.AllEncodable ↔
      ∀ name ∈ Artifact.networkNames document, Text.isEncodable name = true := by
  rw [(written_of_client hconfig h).allEncodable_toJson, ← networks_of_client h,
    List.forall_mem_map]
  simp only [Text.isEncodable_iff]

/-- A generated module has a fingerprint, and a source text, exactly if the names of the networks
in the document have UTF-8 forms. A source text always has one. JSON can always be written, and it
has one exactly if those names do. -/
theorem exists_fingerprint_iff (hconfig : config.validated = .ok config)
    (h : Generation.client document config = .ok client) :
    ((∃ fingerprint, client.fingerprint = .ok fingerprint) ↔
      ∀ name ∈ Artifact.networkNames document, Text.isEncodable name = true) ∧
    ((∃ text, Format.source.render client = .ok text) ↔
      ∀ name ∈ Artifact.networkNames document, Text.isEncodable name = true) ∧
    (∀ text, Format.source.render client = .ok text → Text.isEncodable text = true) ∧
    ∃ text, Format.json.render client = .ok text ∧ (Text.isEncodable text = true ↔
      ∀ name ∈ Artifact.networkNames document, Text.isEncodable name = true) := by
  have hwritten := written_of_client hconfig h
  have hjson := allEncodable_toJson hconfig h
  rw [← hjson]
  refine ⟨Client.exists_fingerprint, ?source, ?text, _, rfl, ?json⟩
  case source => exact Client.exists_source.trans Client.exists_fingerprint
  case text =>
    intro text htext
    exact Text.isEncodable_iff.mpr (hwritten.encodable_source htext)
  case json => exact Text.isEncodable_iff.trans Client.encodable_toJsonText

end

/-- A contract with one function, known on a network of some name. -/
def deployedOn (network : Text) : Json :=
  let function : Json :=
    .obj [("type", .str "function"), ("name", .str "ping"), ("inputs", .arr []),
      ("outputs", .arr []), ("stateMutability", .str "view")]
  .obj [("contractName", .str "Deployed"), ("abi", .arr [function]),
    ("networks", .obj [(network, .str ("0x" ++ List.replicate 40 (CodePoint.ofChar '0')))])]

theorem exists_fingerprint_iff_deployed : Config.standard.validated = .ok Config.standard ∧
    ∃ client, Generation.client (deployedOn "1") Config.standard = .ok client ∧
      (∃ fingerprint, client.fingerprint = .ok fingerprint) ∧
      (∃ text, Format.source.render client = .ok text ∧ Text.isEncodable text = true) ∧
      ∃ text, Format.json.render client = .ok text ∧ Text.isEncodable text = true := by
  have hconfig : Config.standard.validated = .ok Config.standard := rfl
  obtain ⟨client, h⟩ : ∃ client,
      Generation.client (deployedOn "1") Config.standard = .ok client := ⟨_, rfl⟩
  have hnames : ∀ name ∈ Artifact.networkNames (deployedOn "1"), Text.isEncodable name = true := by
    decide
  obtain ⟨hfingerprint, hsource, hencodable, json, hjson, hiff⟩ := exists_fingerprint_iff hconfig h
  obtain ⟨text, htext⟩ := hsource.mpr hnames
  exact ⟨hconfig, client, h, hfingerprint.mpr hnames, ⟨text, htext, hencodable text htext⟩,
    json, hjson, hiff.mpr hnames⟩

/-- A network whose name is a lone surrogate gets past loading and leaves no fingerprint. -/
theorem exists_without_fingerprint :
    ¬ ∀ (document : Json) (config : Config) (client : Client),
      config.validated = .ok config → Generation.client document config = .ok client →
      ∃ fingerprint, client.fingerprint = .ok fingerprint := by
  intro hall
  have hconfig : Config.standard.validated = .ok Config.standard := rfl
  obtain ⟨client, h⟩ : ∃ client,
      Generation.client (deployedOn [⟨0xD800, by decide⟩]) Config.standard = .ok client := ⟨_, rfl⟩
  have hnames := (allEncodable_toJson hconfig h).mp
    (Client.exists_fingerprint.mp (hall _ _ client hconfig h))
  revert hnames
  decide

end Generation

end AbiBindings
