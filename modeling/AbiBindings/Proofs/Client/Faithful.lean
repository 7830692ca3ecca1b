import AbiBindings.Proofs.Client.Fingerprint
import AbiBindings.Proofs.Client.Image

/-!
A generated module shows its document. The module has one constructor, then one part for each
function, event and error in the order in which their items stand in the ABI list, whatever stands
between them, and last the deployments.
-/

namespace AbiBindings

open Outcome

section

variable {α β γ δ : Type} {R : α → β → Prop} {S : γ → δ → Prop}
variable {keep : α → Bool} {pick : β → Option γ}

/-- What is made of the chosen entries is made of the items that spell them, one by one. -/
theorem forall₂_of_filterMap (hkeep : ∀ a b, R a b → keep a = (pick b).isSome)
    {as : List α} {bs : List β} (hentries : List.Forall₂ R as bs) {ds : List δ}
    (hmade : List.Forall₂ S (bs.filterMap pick) ds) :
    List.Forall₂ (fun a d => ∃ b c, R a b ∧ pick b = some c ∧ S c d) (as.filter keep) ds := by
  induction hentries generalizing ds with
  | nil =>
    rw [List.filterMap_nil, List.forall₂_nil_left_iff] at hmade
    rw [hmade]
    exact .nil
  | @cons a b as bs hab _ ih =>
    have hkeep := hkeep a b hab
    cases hpick : pick b with
    | none =>
      rw [List.filterMap_cons_none hpick] at hmade
      rw [hpick] at hkeep
      rw [List.filter_cons_of_neg (by simp [hkeep])]
      exact ih hmade
    | some c =>
      rw [List.filterMap_cons_some hpick] at hmade
      rw [hpick] at hkeep
      rw [List.filter_cons_of_pos (by simp [hkeep])]
      obtain ⟨d, rest, hcd, hrest, rfl⟩ := List.forall₂_cons_left_iff.mp hmade
      exact .cons ⟨b, c, hab, hpick, hcd⟩ (ih hrest)

end

section

variable {ε ν μ : Type} {entryOf : ν → ε} {make : ν → Except Fault μ}
variable (name : ε → Text → Except Fault ν) (Depicts : ε → μ → Prop)

/-- If naming an entry and making a part of it gives one that shows the entry, the parts made of
named entries show the entries in order. -/
theorem Contract.forall₂_of_made
    (hmake : ∀ {entry identifier named made}, name entry identifier = .ok named →
      make named = .ok made → Depicts entry made)
    {entries : List ε} {records : List ν} {parts : List μ}
    (hentries : records.map entryOf = entries)
    (hnamed : ∀ named ∈ records, ∃ identifier, name (entryOf named) identifier = .ok named)
    (h : records.mapM make = .ok parts) : List.Forall₂ Depicts entries parts := by
  rw [← hentries, List.forall₂_map_left_iff]
  have hboth := (List.forall₂_and_left records parts).mpr ⟨hnamed, mapM_eq_ok.mp h⟩
  refine hboth.imp fun named made hnamed => ?_
  obtain ⟨⟨identifier, hname⟩, hmade⟩ := hnamed
  exact hmake hname hmade

end

namespace Client

/-- A module shows an artifact: its constructor, which takes nothing and no value if the ABI has
none, a part for every function, event and error, and everything known of deployments. -/
structure Depicts (artifact : Artifact) (client : Client) : Prop where
  contractName : client.contractName = artifact.name
  inputs : List.Forall₂ Field.Depicts
    ((artifact.constructor?.map ConstructorEntry.inputs).getD []) client.constructor.inputs
  payable : client.constructor.payable = true ↔
    ∃ entry, artifact.constructor? = some entry ∧ entry.mutability = .payable
  methods : List.Forall₂ Method.Depicts artifact.functions client.methods
  events : List.Forall₂ EventRecord.Depicts artifact.events client.events
  errors : List.Forall₂ ErrorRecord.Depicts artifact.errors client.errors
  bytecode : client.deployment.bytecode = artifact.bytecode.map Bytecode.hex
  linkRefs : client.deployment.linkRefs = (artifact.bytecode.map Bytecode.linkRefs).getD []
  networks : client.deployment.networks = artifact.deployments
  fallback : client.fallback = artifact.fallback?.map FallbackEntry.mutability
  receive : client.receive = true ↔ ∃ entry, artifact.receive? = some entry

theorem depicts_ofContract {artifact : Artifact} {aliases : List (Text × Text)}
    {contract : Contract} (hcontract : Contract.ofArtifact artifact aliases = .ok contract)
    {package : Text} {client : Client} (h : ofContract contract package none = .ok client) :
    client.Depicts artifact := by
  have hartifact := Contract.artifact_ofArtifact hcontract
  have hinputs : contract.constructorInputs = NamedParam.ofInputs
      ((artifact.constructor?.map ConstructorEntry.inputs).getD []) := by
    obtain ⟨-, -, -, -, -, -, -, rfl⟩ := Contract.ofArtifact_eq_ok.mp hcontract
    rfl
  simp only [ofContract, bind_eq_ok, pure_eq_ok, Except.ok.injEq] at h
  obtain ⟨inputs, hfields, methods, hmethods, events, hevents, errors, herrors, rfl⟩ := h
  rw [hinputs] at hfields
  have hmethods : List.Forall₂ Method.Depicts artifact.functions methods :=
    Contract.forall₂_of_made Contract.nameFunction Method.Depicts Method.depicts_methodOf
      (Contract.functions_ofArtifact hcontract).1 (Contract.exists_nameFunction hcontract) hmethods
  have hevents : List.Forall₂ EventRecord.Depicts artifact.events events :=
    Contract.forall₂_of_made Contract.nameEvent EventRecord.Depicts
      EventRecord.depicts_eventRecordOf (Contract.events_ofArtifact hcontract).1
      (Contract.exists_nameEvent hcontract) hevents
  have herrors : List.Forall₂ ErrorRecord.Depicts artifact.errors errors :=
    Contract.forall₂_of_made Contract.nameError ErrorRecord.Depicts
      ErrorRecord.depicts_errorRecordOf (Contract.errors_ofArtifact hcontract).1
      (Contract.exists_nameError hcontract) herrors
  exact {
    contractName := congrArg Artifact.name hartifact
    inputs := depicts_inputs hfields
    payable := by simp [Contract.constructorPayable, hartifact, Option.any_eq_true]
    methods := hmethods
    events := hevents
    errors := herrors
    bytecode := by rw [deploymentOf, hartifact]
    linkRefs := by rw [deploymentOf, hartifact]
    networks := by rw [deploymentOf, hartifact]
    fallback := by rw [hartifact]
    receive := by rw [hartifact, Option.isSome_iff_exists] }

end Client

namespace Artifact

def itemsOf (kind : EntryKind) (items : List Json) : List (Json × Nat) :=
  items.zipIdx.filter fun p => (kindOf p.1).toOption = some kind

/-- The parts made of the entries of a kind show the items of the kind in their order. -/
theorem forall₂_itemsOf {γ δ : Type} (kind : EntryKind) (pick : Entry → Option γ)
    (hpick : ∀ entry, (pick entry).isSome = decide (entry.kind = kind)) {S : γ → δ → Prop}
    {items : List Json} {entries : List Entry}
    (hentries : List.Forall₂ (fun p entry => SpellsEntry p.1 p.2 entry) items.zipIdx entries)
    {parts : List δ} (hparts : List.Forall₂ S (entries.filterMap pick) parts) :
    List.Forall₂ (fun p part => ∃ entry chosen, SpellsEntry p.1 p.2 entry ∧
      pick entry = some chosen ∧ S chosen part) (itemsOf kind items) parts := by
  apply forall₂_of_filterMap _ hentries hparts
  intro p entry hspells
  simp [hpick, hspells.kindOf_eq, Except.toOption]

end Artifact

namespace Generation

open Artifact (SpellsArtifact SpellsEntry itemsOf)

/-- A generated module shows the artifact that its document spells, and each of its methods and
records an item of the ABI list: of the items of one kind none is left out or comes twice, and
they keep their order. Its JSON lists the parts. -/
theorem client_depicts {raw : Json} {config : Config} {client : Client}
    (h : Generation.client raw config = .ok client) :
    ∃ document artifact items, Artifact.documentOf raw = .ok document ∧
      SpellsArtifact document config.contractName artifact ∧
      document.field? "abi" = some (.arr items) ∧
      client.Depicts artifact ∧
      List.Forall₂ (fun p m => ∃ entry, SpellsEntry p.1 p.2 (.function entry) ∧
        Client.Method.Depicts entry m) (itemsOf .function items) client.methods ∧
      List.Forall₂ (fun p e => ∃ entry, SpellsEntry p.1 p.2 (.event entry) ∧
        Client.EventRecord.Depicts entry e) (itemsOf .event items) client.events ∧
      List.Forall₂ (fun p e => ∃ entry, SpellsEntry p.1 p.2 (.error entry) ∧
        Client.ErrorRecord.Depicts entry e) (itemsOf .error items) client.errors ∧
      client.toJson.field? "units" = some (.arr (client.parts.map Client.Part.toJson)) := by
  obtain ⟨artifact, hload, h⟩ := bind_eq_ok.mp h
  obtain ⟨contract, hcontract, h⟩ := bind_eq_ok.mp h
  obtain ⟨document, hdocument, -, hspelled⟩ := Artifact.load_ok hload
  obtain ⟨items, hitems, hentries⟩ := hspelled.abi
  have hdepicts := Client.depicts_ofContract hcontract h
  refine ⟨document, artifact, items, hdocument, hspelled, hitems, hdepicts, ?functions, ?events,
    ?errors, ?units⟩
  case functions =>
    have hparts := Artifact.forall₂_itemsOf .function Entry.function?
      (by rintro ⟨⟩ <;> rfl) hentries hdepicts.methods
    refine hparts.imp fun p m hpart => ?_
    obtain ⟨entry, chosen, hentry, hchosen, hm⟩ := hpart
    cases entry with
    | function _ =>
      cases hchosen
      exact ⟨chosen, hentry, hm⟩
    | _ => cases hchosen
  case events =>
    have hparts := Artifact.forall₂_itemsOf .event Entry.event?
      (by rintro ⟨⟩ <;> rfl) hentries hdepicts.events
    refine hparts.imp fun p e hpart => ?_
    obtain ⟨entry, chosen, hentry, hchosen, he⟩ := hpart
    cases entry with
    | event _ =>
      cases hchosen
      exact ⟨chosen, hentry, he⟩
    | _ => cases hchosen
  case errors =>
    have hparts := Artifact.forall₂_itemsOf .error Entry.error?
      (by rintro ⟨⟩ <;> rfl) hentries hdepicts.errors
    refine hparts.imp fun p e hpart => ?_
    obtain ⟨entry, chosen, hentry, hchosen, he⟩ := hpart
    cases entry with
    | error _ =>
      cases hchosen
      exact ⟨chosen, hentry, he⟩
    | _ => cases hchosen
  case units => rw [← Client.partsJson_eq_map]; rfl

/-- A document in which the kinds stand mixed, with an event of indexed and other inputs and an
anonymous one, a constructor that takes value, a fallback function and a network. -/
def mixed : Json :=
  let input (name type : Text) (indexed : Bool) : Json :=
    .obj [("name", .str name), ("type", .str type), ("indexed", .bool indexed)]
  .obj [("contractName", .str "Mixed"), ("bytecode", .str "0x6000"),
    ("networks", .obj [("1", .str ("0x" ++ List.replicate 40 (CodePoint.ofChar '0')))]),
    ("abi", .arr [
      .obj [("type", .str "event"), ("name", .str "Moved"), ("inputs", .arr
        [input "amount" "uint" false, input "to" "address" true, input "" "bytes" false])],
      .obj [("type", .str "function"), ("name", .str "move"), ("stateMutability", .str "payable"),
        ("inputs", .arr [input "to" "address" false])],
      .obj [("type", .str "fallback")],
      .obj [("type", .str "event"), ("name", .str "Seen"), ("anonymous", .bool true)],
      .obj [("type", .str "error"), ("name", .str "Stuck"), ("inputs", .arr [])],
      .obj [("name", .str "look"), ("stateMutability", .str "view"),
        ("outputs", .arr [input "" "uint8[2]" false])],
      .obj [("type", .str "constructor"), ("stateMutability", .str "payable"),
        ("inputs", .arr [input "owner" "address" false])]])]

theorem client_depicts_mixed :
    ∃ client, Generation.client mixed Config.standard = .ok client ∧
      ∃ artifact, client.Depicts artifact ∧ artifact.functions.length = client.methods.length ∧
        client.methods.length = 2 ∧ client.events.length = 2 ∧ client.errors.length = 1 := by
  obtain ⟨client, h, hlengths⟩ : ∃ client, Generation.client mixed Config.standard = .ok client ∧
      client.methods.length = 2 ∧ client.events.length = 2 ∧ client.errors.length = 1 :=
    ⟨_, rfl, rfl, rfl, rfl⟩
  obtain ⟨-, artifact, -, -, -, -, hdepicts, -⟩ := client_depicts h
  exact ⟨client, h, artifact, hdepicts, hdepicts.methods.length_eq, hlengths⟩

end Generation

end AbiBindings
