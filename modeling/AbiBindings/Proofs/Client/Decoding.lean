import AbiBindings.Proofs.Client.Faithful
import AbiBindings.Proofs.Client.Lossless
import AbiBindings.Proofs.Json.RoundTrip
import AbiBindings.Proofs.Text.Encoding

/-!
The JSON of a generated module can be decoded: in every style it is read as the same value, and
two modules with one text are the same. So two modules with one fingerprint are the same, unless
their texts are a collision of the hash.
-/

namespace AbiBindings

open Outcome

theorem Field.bound_of_depicts {params : List Param} {fields : List Field}
    (hsupported : ∀ param ∈ params, param.type.Supported)
    (h : List.Forall₂ Field.Depicts params fields) : ∀ field ∈ fields, field.Bound := by
  induction h with
  | nil => exact fun _ hmem => absurd hmem List.not_mem_nil
  | @cons param field params fields hfield _ ih =>
    rw [List.forall_mem_cons] at hsupported ⊢
    refine ⟨⟨?_, ?_⟩, ih hsupported.2⟩
    · rw [hfield.type]
      exact hsupported.1
    · rw [hfield.type]
      exact hfield.binding

namespace Client

def OffsetsFit (limit : Option Nat) (client : Client) : Prop :=
  ∀ ref ∈ client.deployment.linkRefs, ∀ offset ∈ ref.offsets, (Json.int offset).Plain limit

theorem offsetsFit_none (client : Client) : client.OffsetsFit none :=
  fun _ _ _ _ _ hbound => by cases hbound

theorem Depicts.bound {artifact : Artifact} {client : Client} (h : client.Depicts artifact)
    (hsupported : ∀ entry ∈ artifact.abi, ∀ param ∈ Artifact.paramsOf entry, param.type.Supported)
    {limit : Option Nat} (hoffsets : client.OffsetsFit limit) : client.Bound limit := by
  have hconstructor : ∀ param ∈ (artifact.constructor?.map ConstructorEntry.inputs).getD [],
      param.type.Supported := by
    cases hentry : artifact.constructor? with
    | none => simp
    | some entry => exact hsupported _ (Artifact.mem_of_constructor? hentry)
  intro part hpart
  simp only [parts, List.mem_append, List.mem_cons, List.mem_map, List.not_mem_nil,
    or_false] at hpart
  rcases hpart with (((rfl | ⟨m, hm, rfl⟩) | ⟨e, he, rfl⟩) | ⟨e, he, rfl⟩) | rfl
  · exact Field.bound_of_depicts hconstructor h.inputs
  · obtain ⟨entry, hentry, hdepicts⟩ := exists_of_forall₂ h.methods hm
    have hparams := hsupported _ (Artifact.mem_functions.mp hentry)
    rw [Artifact.paramsOf, List.forall_mem_append] at hparams
    exact List.forall_mem_append.mpr ⟨Field.bound_of_depicts hparams.1 hdepicts.inputs,
      Field.bound_of_depicts hparams.2 hdepicts.outputs⟩
  · obtain ⟨entry, hentry, hdepicts⟩ := exists_of_forall₂ h.events he
    have hparams := hsupported _ (Artifact.mem_events.mp hentry)
    have hfilter (mark : Param → Bool) :
        ∀ param ∈ entry.inputs.filter mark, param.type.Supported :=
      fun param hparam => hparams param (List.mem_of_mem_filter hparam)
    exact List.forall_mem_append.mpr ⟨Field.bound_of_depicts (hfilter _) hdepicts.topicFields,
      Field.bound_of_depicts (hfilter _) hdepicts.dataFields⟩
  · obtain ⟨entry, hentry, hdepicts⟩ := exists_of_forall₂ h.errors he
    exact Field.bound_of_depicts (hsupported _ (Artifact.mem_errors.mp hentry)) hdepicts.fields
  · exact hoffsets

section

variable {client client' : Client}

/-- A bound module is read back from its text in every style. -/
theorem readAll_toJsonText {limit : Option Nat} (hlimit : Json.CoversTypes limit)
    (h : client.Bound limit) (style : Json.Style) :
    Json.readAll limit (client.toJsonText style) = .ok client.toJson.sorted :=
  Json.readAll_write style (plain_toJson hlimit h)

theorem read_toJsonText (h : client.Bound (some Json.digitLimit)) (style : Json.Style) :
    Json.read (client.toJsonText style) = .ok client.toJson.sorted := by
  have hlimit : Json.CoversTypes (some Json.digitLimit) :=
    fun _ hbound => Nat.le_of_eq (Option.some.inj hbound)
  rw [Json.read, readAll_toJsonText hlimit h]

theorem toJsonText_injective (h : client.Bound none) (h' : client'.Bound none)
    {style style' : Json.Style} (htext : client.toJsonText style = client'.toJsonText style') :
    client = client' := by
  have hread := readAll_toJsonText Json.coversTypes_none h style
  rw [htext, readAll_toJsonText Json.coversTypes_none h'] at hread
  exact toJson_injective h h' (Except.ok.inj hread).symm

/-- Two modules with one fingerprint have the same text, or two texts that collide. -/
theorem fingerprint_collides {fingerprint : Text} (h : client.fingerprint = .ok fingerprint)
    (h' : client'.fingerprint = .ok fingerprint) :
    ∃ bytes bytes', Text.encode (client.toJsonText .compact) = .ok bytes ∧
      Text.encode (client'.toJsonText .compact) = .ok bytes' ∧
      Hash.sha3 bytes = Hash.sha3 bytes' := by
  unfold Client.fingerprint at h h'
  split at h
  · next bytes hbytes =>
    split at h'
    · next bytes' hbytes' =>
      have hdigits := (Except.ok.inj h).trans (Except.ok.inj h').symm
      exact ⟨bytes, bytes', hbytes, hbytes',
        Hash.hexOfBytes_injective (List.append_cancel_left hdigits)⟩
    · cases h'
  · cases h

end

end Client

namespace Generation

section

variable {document document' : Json} {config config' : Config} {client client' : Client}

theorem bound_of_client (h : Generation.client document config = .ok client)
    {limit : Option Nat} (hoffsets : client.OffsetsFit limit) : client.Bound limit := by
  obtain ⟨artifact, hload, h⟩ := bind_eq_ok.mp h
  obtain ⟨contract, hcontract, h⟩ := bind_eq_ok.mp h
  exact (Client.depicts_ofContract hcontract h).bound
    (fun _ hentry _ hparam => Artifact.supported_of_load hload hentry hparam) hoffsets

/-- The JSON of a generated module is read back as the module's own, up to the order of fields,
and as the same value in every style; where integers are limited, its offsets must fit. Two
generated modules with one text, in whatever styles, are the same. Two with one fingerprint are
the same, or else the bytes of their texts are different and collide. -/
theorem json_lossless (h : Generation.client document config = .ok client)
    (h' : Generation.client document' config' = .ok client') :
    (∃ value, client.toJson.Alike value ∧ ∀ style,
      Json.readAll none (client.toJsonText style) = .ok value ∧
      (client.OffsetsFit (some Json.digitLimit) →
        Json.read (client.toJsonText style) = .ok value)) ∧
    (∀ style style', client.toJsonText style = client'.toJsonText style' → client = client') ∧
    ∀ fingerprint, client.fingerprint = .ok fingerprint →
      client'.fingerprint = .ok fingerprint → client = client' ∨
        ∃ bytes bytes', Text.encode (client.toJsonText .compact) = .ok bytes ∧
          Text.encode (client'.toJsonText .compact) = .ok bytes' ∧ bytes ≠ bytes' ∧
          Hash.sha3 bytes = Hash.sha3 bytes' := by
  have hbound := bound_of_client h client.offsetsFit_none
  have hbound' := bound_of_client h' client'.offsetsFit_none
  refine ⟨⟨client.toJson.sorted, ?alike, fun style => ⟨?all, ?limited⟩⟩, ?texts, ?fingerprints⟩
  case alike => exact Json.alike_sorted (Client.plain_toJson Json.coversTypes_none hbound)
  case all => exact Client.readAll_toJsonText Json.coversTypes_none hbound style
  case limited => exact fun hoffsets => Client.read_toJsonText (bound_of_client h hoffsets) style
  case texts => exact fun _ _ htext => Client.toJsonText_injective hbound hbound' htext
  case fingerprints =>
    intro fingerprint hfingerprint hfingerprint'
    obtain ⟨bytes, bytes', hbytes, hbytes', hcollide⟩ :=
      Client.fingerprint_collides hfingerprint hfingerprint'
    by_cases hsame : bytes = bytes'
    · subst hsame
      exact .inl (Client.toJsonText_injective hbound hbound'
        (Text.encode_injective hbytes hbytes'))
    · exact .inr ⟨bytes, bytes', hbytes, hbytes', hsame, hcollide⟩

end

/-- Modules for one contract on two networks have different texts, and each is read back. -/
theorem json_lossless_deployed :
    ∃ client client', Generation.client (deployedOn "1") Config.standard = .ok client ∧
      Generation.client (deployedOn "2") Config.standard = .ok client' ∧
      (∃ value, client.toJson.Alike value ∧ ∀ style,
        Json.read (client.toJsonText style) = .ok value) ∧
      client.toJsonText .compact ≠ client'.toJsonText .compact := by
  obtain ⟨client, h, hnetworks, hrefs⟩ : ∃ client,
      Generation.client (deployedOn "1") Config.standard = .ok client ∧
      client.deployment.networks.map Prod.fst = ["1"] ∧ client.deployment.linkRefs = [] :=
    ⟨_, rfl, rfl, rfl⟩
  obtain ⟨client', h', hnetworks'⟩ : ∃ client',
      Generation.client (deployedOn "2") Config.standard = .ok client' ∧
      client'.deployment.networks.map Prod.fst = ["2"] := ⟨_, rfl, rfl⟩
  have hoffsets : client.OffsetsFit (some Json.digitLimit) := by
    intro ref href
    rw [hrefs] at href
    exact absurd href List.not_mem_nil
  obtain ⟨⟨value, halike, hread⟩, htexts, -⟩ := json_lossless h h'
  refine ⟨client, client', h, h', ⟨value, halike, fun style => (hread style).2 hoffsets⟩, ?_⟩
  intro htext
  rw [htexts _ _ htext, hnetworks'] at hnetworks
  exact absurd hnetworks (by decide)

end Generation

end AbiBindings
