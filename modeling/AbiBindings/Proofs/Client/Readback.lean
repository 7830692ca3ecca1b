import AbiBindings.Proofs.Bytecode.Links
import AbiBindings.Proofs.Client.Fingerprint
import AbiBindings.Proofs.Client.Members
import AbiBindings.Proofs.Json.Distinct
import AbiBindings.Proofs.Script.Imports

/-!
The source of a generated module read back. Its literals have the data of the module as their
values, and no line ends but where the source ends one.
-/

namespace AbiBindings

open Outcome

/-- No network comes twice if no object in the document has a key twice. -/
theorem Artifact.nodup_networkNames {document : Json} (h : document.Distinct) :
    (networkNames document).Nodup := by
  unfold networkNames
  split
  · next hfield => exact (Json.distinct_obj.mp (h.field hfield)).1
  · exact List.nodup_nil

theorem Artifact.nodup_placeholders {document : Json} {code : Bytecode}
    (h : loadBytecode document = .ok (some code)) :
    (code.linkRefs.map LinkRef.placeholder).Nodup := by
  obtain ⟨text, -, h⟩ := bind_eq_ok.mp h
  split at h
  · cases h
  · exact (Bytecode.links_of_ofText? (mapError_eq_ok.mp h)).ordered.distinct

namespace Client

theorem le_val_fingerprint {client : Client} {fingerprint : Text}
    (h : client.fingerprint = .ok fingerprint) : ∀ c ∈ fingerprint, 32 ≤ c.val := by
  rw [Client.fingerprint] at h
  split at h
  · cases h
    rw [List.forall_mem_append, Hash.hexOfBytes, Text.forall_mem_flatMap]
    refine ⟨by decide, ?_⟩
    intro byte _ c hc
    exact Script.State.le_val_of_isHexDigit (Text.isHexDigit_of_mem_ofHex hc)
  · cases h

end Client

namespace Generation

section

variable {document : Json} {config : Config} {client : Client}

theorem legible_of_client (hconfig : config.validated = .ok config)
    (h : Generation.client document config = .ok client) : client.Legible := by
  obtain ⟨artifact, hload, h⟩ := bind_eq_ok.mp h
  obtain ⟨contract, hcontract, h⟩ := bind_eq_ok.mp h
  apply (Client.scoped_ofContract hcontract h).legible
  rw [(Client.assembles_ofContract h).package]
  obtain ⟨parts, hpath⟩ := Config.exists_isPath_of_validated hconfig
  exact Script.isPathPart_of_isPath hpath

theorem nodup_linkRefs (h : Generation.client document config = .ok client) :
    (client.deployment.linkRefs.map LinkRef.placeholder).Nodup := by
  obtain ⟨artifact, hload, h⟩ := bind_eq_ok.mp h
  obtain ⟨contract, hcontract, h⟩ := bind_eq_ok.mp h
  obtain ⟨document, -, -, hspelled⟩ := Artifact.load_ok hload
  rw [(Client.assembles_ofContract h).deployment, Contract.artifact_ofArtifact hcontract]
  cases hcode : artifact.bytecode with
  | none =>
    rw [Client.deploymentOf, hcode]
    exact List.nodup_nil
  | some code =>
    rw [Client.deploymentOf, hcode]
    exact Artifact.nodup_placeholders (hcode ▸ hspelled.bytecode)

theorem nodup_networks (h : Generation.client document config = .ok client)
    (hdistinct : document.Distinct) : (client.deployment.networks.map Prod.fst).Nodup := by
  rw [networks_of_client h]
  exact Artifact.nodup_networkNames hdistinct

/-- The source of a generated module can be scanned, and its lines say the outline of the module:
every literal has as its value the datum that it was written for. Every line end ends a line, so
none stands in a literal. No placeholder comes twice, and no network does that the document does
not repeat. -/
theorem source_reads_back (hconfig : config.validated = .ok config)
    (h : Generation.client document config = .ok client) {text : Text}
    (htext : Format.source.render client = .ok text) :
    ∃ fingerprint lines, client.fingerprint = .ok fingerprint ∧ Script.scan text = some lines ∧
      Script.statements lines = client.outline fingerprint ∧
      Script.lineEnds text = lines.length ∧
      (client.deployment.linkRefs.map LinkRef.placeholder).Nodup ∧
      (document.Distinct → (client.deployment.networks.map Prod.fst).Nodup) := by
  obtain ⟨fingerprint, hfingerprint, hparts⟩ := bind_eq_ok.mp htext
  cases hparts
  have hsays := (legible_of_client hconfig h).says_source (Client.le_val_fingerprint hfingerprint)
  obtain ⟨lines, hscan, hends, hstatements⟩ := hsays.scan
  exact ⟨fingerprint, lines, hfingerprint, hscan, hstatements, hends, nodup_linkRefs h,
    nodup_networks h⟩

end

/-- Forty characters for an open library, quote marks, a backslash and a line end among them. -/
def awkwardPlaceholder : Text :=
  "__'\"\"\"\\\n" ++ List.replicate 30 (CodePoint.ofChar '\'') ++ "__"

/-- A contract whose names, network and placeholder have quote marks, backslashes and line ends in
them. -/
def awkward : Json :=
  let param (kind : Text) : Json := .obj [("name", .str "v"), ("type", .str kind)]
  .obj [("contractName", .str "it's \"D\\"),
    ("abi", .arr [
      .obj [("type", .str "function"), ("name", .str "x\"\"\"y\\"),
        ("inputs", .arr [param "uint256"]), ("outputs", .arr []), ("stateMutability", .str "view")],
      .obj [("type", .str "event"), ("name", .str "E\n\\"), ("inputs", .arr [])],
      .obj [("type", .str "error"), ("name", .str "q\"'"), ("inputs", .arr [])]]),
    ("bytecode", .str ("0x60" ++ awkwardPlaceholder)),
    ("networks", .obj [("\r\n\"'", .str ("0x" ++ List.replicate 40 (CodePoint.ofChar '0')))])]

set_option maxRecDepth 4000 in
/-- The awkward texts are in the source as they are in the document. -/
theorem source_reads_back_awkward :
    ∃ client text lines, Generation.client awkward Config.standard = .ok client ∧
      client.methods.map Client.Method.signature = ["x\"\"\"y\\(uint256)"] ∧
      client.deployment.linkRefs.map LinkRef.placeholder = [awkwardPlaceholder] ∧
      Format.source.render client = .ok text ∧ Script.scan text = some lines ∧
      (∃ fingerprint, Script.statements lines = client.outline fingerprint) ∧
      .assigned "CONTRACT_NAME" (.text "it's \"D\\") ∈ Script.statements lines ∧
      Script.lineEnds text = lines.length ∧
      (client.deployment.networks.map Prod.fst).Nodup := by
  have hconfig : Config.standard.validated = .ok Config.standard := rfl
  obtain ⟨client, h, hname, hmethods, hrefs⟩ : ∃ client,
      Generation.client awkward Config.standard = .ok client ∧
      client.contractName = "it's \"D\\" ∧
      client.methods.map Client.Method.signature = ["x\"\"\"y\\(uint256)"] ∧
      client.deployment.linkRefs.map LinkRef.placeholder = [awkwardPlaceholder] :=
    ⟨_, rfl, rfl, rfl, rfl⟩
  have hnames : ∀ name ∈ Artifact.networkNames awkward, Text.isEncodable name = true := by decide
  have hjson := (allEncodable_toJson hconfig h).mpr hnames
  obtain ⟨text, htext⟩ := Client.exists_source.mpr (Client.exists_fingerprint.mpr hjson)
  have hdistinct : awkward.Distinct := by
    simp only [awkward, Json.distinct_obj, Json.distinct_arr, Json.distinct_str,
      List.forall_mem_cons, List.not_mem_nil, false_implies, implies_true, and_true]
    decide
  obtain ⟨fingerprint, lines, -, hscan, hstatements, hends, -, hnodup⟩ :=
    source_reads_back hconfig h htext
  have hcontract : .assigned "CONTRACT_NAME" (.text client.contractName) ∈
      client.outline fingerprint := by
    simp [Client.outline, Client.Outline.contractClass]
  rw [← hstatements, hname] at hcontract
  exact ⟨client, text, lines, h, hmethods, hrefs, htext, hscan, ⟨fingerprint, hstatements⟩,
    hcontract, hends, hnodup hdistinct⟩

end Generation

end AbiBindings
