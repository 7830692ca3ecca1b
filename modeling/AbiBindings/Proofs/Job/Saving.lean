import AbiBindings.Job
import AbiBindings.Proofs.Client.Fingerprint
import AbiBindings.Proofs.Config.Acceptance
import AbiBindings.Proofs.Disk.Saving

/-!
Saving what a job generates. The text is saved whole or not at all, but for JSON with a lone
surrogate in the name of a network, which has no UTF-8 form.
-/

namespace AbiBindings

open Outcome Std.Do

set_option mvcgen.warning false

namespace Generation

/-- The text of a generated module has a UTF-8 form unless it is JSON and the name of a network has
none. -/
theorem encode_eq_error {document : Json} {config : Config} {client : Client}
    (hconfig : config.validated = .ok config)
    (h : Generation.client document config = .ok client) {format : Format} {text : Text}
    (hrender : format.render client = .ok text) :
    (∃ fault, text.encode = .error fault) ↔
      format = .json ∧ ∃ name ∈ Artifact.networkNames document, Text.isEncodable name = false := by
  rw [Text.exists_encode_eq_error, ← Bool.not_eq_true, Text.isEncodable_iff]
  cases format with
  | source =>
    have hsource := (written_of_client hconfig h).encodable_source hrender
    simp [hsource]
  | json =>
    have htext : client.toJsonText (.indented 2) ++ "\n" = text := Except.ok.inj hrender
    rw [← htext, Client.encodable_toJsonText, allEncodable_toJson hconfig h]
    simp

end Generation

namespace Job

/-- What a job generates is the module of the document that it reads, with its text. -/
theorem generate_eq_ok {job : Job} {format : Format} {drive : Drive} {bindings : Bindings}
    (h : ((job.generate format : StateM Drive (Run Bindings)) drive).1.outcome = .ok bindings) :
    ∃ document,
      ((Document.read (Path.ofText job.artifactPath) : StateM Drive _) drive).1 = .ok document ∧
      Generation.client document job.config = .ok bindings.client ∧
      format.render bindings.client = .ok bindings.source := by
  change (job.runOn ((Document.read (Path.ofText job.artifactPath) : StateM Drive _)
    drive).1).outcome >>= Bindings.ofClient format = .ok bindings at h
  obtain ⟨client, hclient, h⟩ := bind_eq_ok.mp h
  obtain ⟨text, hrender, hbindings⟩ := bind_eq_ok.mp h
  cases hbindings
  cases hread : ((Document.read (Path.ofText job.artifactPath) : StateM Drive _) drive).1 with
  | error fault =>
    rw [hread] at hclient
    cases hclient
  | ok document =>
    rw [hread] at hclient
    exact ⟨document, rfl, hclient, hrender⟩

end Job

namespace Bindings

theorem save_spec (bindings : Bindings) (tree : FileTree) (target : Path) :
    ⦃fun drive => ⌜tree.SameFiles drive.tree⌝⦄
    (bindings.save target : StateM Drive (Run Path))
    ⦃⇓ run drive => ⌜Saved target bindings.source tree run.outcome drive.tree⌝⦄ := by
  have hsave := Disk.save_spec tree target bindings.source
  mvcgen [save, hsave]

end Bindings

namespace Job

/-- Saving what a job generates ends in one of the ways of `Saved`, on every drive: with the whole
text in the target, with all files as they were, or, if the text has no UTF-8 form, with an empty
file beside the target. The text has none exactly if it is JSON and the document that the job reads
has a network whose name has none. -/
theorem save_generated {path : Text} {config : Config} {job : Job}
    (hjob : ofConfig path config = .ok job) {format : Format} {drive : Drive} {bindings : Bindings}
    (h : ((job.generate format : StateM Drive (Run Bindings)) drive).1.outcome = .ok bindings)
    (target : Path) (disk : Drive) :
    Saved target bindings.source disk.tree
      ((bindings.save target : StateM Drive (Run Path)) disk).1.outcome
      ((bindings.save target : StateM Drive (Run Path)) disk).2.tree ∧
    ∃ document, ((Document.read (Path.ofText path) : StateM Drive _) drive).1 = .ok document ∧
      ((∃ fault, bindings.source.encode = .error fault) ↔
        format = .json ∧
          ∃ name ∈ Artifact.networkNames document, Text.isEncodable name = false) := by
  obtain ⟨rfl, hconfig⟩ := validated_ofConfig hjob
  obtain ⟨document, hread, hclient, hrender⟩ := generate_eq_ok h
  refine ⟨bindings.save_spec disk.tree target disk (.refl _), document, hread, ?_⟩
  exact Generation.encode_eq_error hconfig hclient hrender

/-- A drive with an artifact that is known on a network, with the name of that as it is spelled. -/
def deployedDrive (network : Text) : Drive :=
  let address : Text := "0x" ++ List.replicate 40 (CodePoint.ofChar '0')
  let artifact : Text := "\x7b\"contractName\": \"Deployed\", \"abi\": [], \"networks\": \x7b\"" ++
    network ++ "\": \"" ++ address ++ "\"\x7d\x7d"
  .sound { FileTree.empty [] with files := [(["a.json"], artifact.flatMap Text.encodeOne)] }

def deployed : Job := ⟨"a.json", { Config.standard with artifactPath := some "a.json" }⟩

/-- A drive that is full when the new file is to take its place. -/
def fullDrive : Drive where
  tree := .empty []
  requests := 0
  refusal
    | _, .replace .. => some (.refused "no space")
    | _, _ => none
  written _ := 0

theorem exists_of_isEncodable (network : Text) (encodable : Bool)
    (h : (((deployed.generate .json : StateM Drive (Run Bindings))
      (deployedDrive network)).1.outcome.toOption.map fun bindings =>
        Text.isEncodable bindings.source) = some encodable) :
    ∃ bindings,
      ((deployed.generate .json : StateM Drive (Run Bindings)) (deployedDrive network)).1.outcome =
        .ok bindings ∧ Text.isEncodable bindings.source = encodable := by
  obtain ⟨bindings, hbindings, hencodable⟩ := Option.map_eq_some_iff.mp h
  exact ⟨bindings, toOption_eq_some.mp hbindings, hencodable⟩

theorem save_generated_full : ofConfig "a.json" .standard = .ok deployed ∧ ∃ bindings,
    ((deployed.generate .json : StateM Drive (Run Bindings)) (deployedDrive "1")).1.outcome =
      .ok bindings ∧
    Saved (.ofText "out/a.json") bindings.source fullDrive.tree
      ((bindings.save (.ofText "out/a.json") : StateM Drive (Run Path)) fullDrive).1.outcome
      ((bindings.save (.ofText "out/a.json") : StateM Drive (Run Path)) fullDrive).2.tree ∧
    ∃ bytes, bindings.source.encode = .ok bytes := by
  have hjob : ofConfig "a.json" .standard = .ok deployed := rfl
  obtain ⟨bindings, h, hencodable⟩ := exists_of_isEncodable "1" true (by decide +kernel)
  exact ⟨hjob, bindings, h, (save_generated hjob h (.ofText "out/a.json") fullDrive).1,
    Text.exists_encode_eq_ok.mpr (Text.isEncodable_iff.mp hencodable)⟩

/-- JSON with a lone surrogate in the name of a network leaves an empty file beside the target. -/
theorem exists_save_leaving_file : ∃ bindings fault,
    ((deployed.generate .json : StateM Drive (Run Bindings)) (deployedDrive "\\ud800")).1.outcome =
      .ok bindings ∧
    ((bindings.save (.ofText "out.json") : StateM Drive (Run Path))
      (.sound (.empty []))).1.outcome = .error (.unencodable fault) ∧
    ((bindings.save (.ofText "out.json") : StateM Drive (Run Path))
      (.sound (.empty []))).2.tree.files = [([Text.ofString ".out.json.*.tmp"], [])] := by
  obtain ⟨bindings, h, hencodable⟩ := exists_of_isEncodable "\\ud800" false (by decide +kernel)
  obtain ⟨fault, hfault⟩ := Text.exists_encode_eq_error.mpr hencodable
  obtain ⟨temporary, left, hprepare, hleft⟩ : ∃ temporary left,
      (Disk.prepare (.ofText "out.json") : StateM Drive (Except Fault Path))
        (.sound (.empty [])) = (.ok temporary, left) ∧
      left.tree.files = [([Text.ofString ".out.json.*.tmp"], [])] := ⟨_, _, rfl, rfl⟩
  have hsave : (bindings.save (.ofText "out.json") : StateM Drive (Run Path))
      (.sound (.empty [])) = (⟨.error (.unencodable fault), []⟩, left) := by
    simp only [Bindings.save, Disk.save, bind, StateT.bind, hprepare, hfault]
    rfl
  refine ⟨bindings, fault, h, ?_⟩
  rw [hsave]
  exact ⟨rfl, hleft⟩

end Job

end AbiBindings
