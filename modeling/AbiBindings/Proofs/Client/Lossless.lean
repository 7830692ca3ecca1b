import AbiBindings.Client.Encoded
import AbiBindings.Proofs.AbiType.Encoded
import AbiBindings.Proofs.Client.Field
import AbiBindings.Proofs.Client.Parts

/-!
The JSON of a module holds all of it. Every part names its kind, so parts of different kinds are
told apart, and within a kind each datum has a key of its own. Representations follow from types,
so it does not matter that their JSON leaves out what the description of a host type has.
-/

namespace AbiBindings

open Json (CoversTypes)
open Outcome

section

variable {limit : Option Nat}

mutual

theorem Binding.plain_toJson : (binding : Binding) → binding.toJson.Plain limit
  | ⟨host, codec, elements⟩ => by
    have hparts := Binding.plain_toJsons elements
    have hkeys : ("host" : Text) ≠ "codec" ∧ ("host" : Text) ≠ "elements" ∧
        ("codec" : Text) ≠ "elements" := by decide
    rw [Binding.toJson]
    by_cases hempty : elements.isEmpty = true
    · simp [hempty, hkeys]
    · simpa [hempty, hkeys] using hparts

theorem Binding.plain_toJsons :
    (elements : List Binding) → ∀ json ∈ Binding.toJsons elements, json.Plain limit
  | [] => by simp [Binding.toJsons]
  | element :: rest => by
    rw [Binding.toJsons, List.forall_mem_cons]
    exact ⟨Binding.plain_toJson element, Binding.plain_toJsons rest⟩

end

namespace Field

structure Bound (field : Field) : Prop where
  supported : field.type.Supported
  binding : Binding.ofType field.type = .ok field.binding

attribute [ext] Field

variable {field field' : Field} {fields fields' : List Field}

theorem plain_toJson (hlimit : CoversTypes limit) (h : field.Bound) :
    field.toJson.Plain limit := by
  rw [toJson, Json.plain_obj]
  refine ⟨by simp only [List.map_cons, List.map_nil]; decide, ?_⟩
  simpa using ⟨AbiType.plain_toJson hlimit h.supported, Binding.plain_toJson field.binding⟩

theorem plain_listJson (hlimit : CoversTypes limit) (h : ∀ field ∈ fields, field.Bound) :
    (listJson fields).Plain limit := by
  rw [listJson, Json.plain_arr, List.forall_mem_map]
  exact fun field hfield => plain_toJson hlimit (h field hfield)

/-- Fields are told apart by their names, identifiers and types. -/
theorem toJson_injective (h : field.Bound) (h' : field'.Bound)
    (hsorted : field.toJson.sorted = field'.toJson.sorted) : field = field' := by
  have hmatch : Json.Matches _ _ := ⟨plain_toJson Json.coversTypes_none h,
    plain_toJson Json.coversTypes_none h', hsorted⟩
  have htype := AbiType.toJson_injective h.supported h'.supported (hmatch.field "type" rfl rfl)
  have hbinding : field.binding = field'.binding := by
    have hbound := h.binding
    rw [htype, h'.binding] at hbound
    exact (Except.ok.inj hbound).symm
  exact Field.ext (hmatch.text "name" rfl rfl) (hmatch.text "identifier" rfl rfl) htype hbinding

theorem listJson_injective (h : ∀ field ∈ fields, field.Bound)
    (h' : ∀ field ∈ fields', field.Bound)
    (hsorted : (listJson fields).sorted = (listJson fields').sorted) : fields = fields' :=
  Json.eq_of_sorted_map
    (fun field hfield field' hfield' => toJson_injective (h field hfield) (h' field' hfield'))
    hsorted

end Field

namespace Client

attribute [ext] Client Constructor Method EventRecord ErrorRecord Deployment LinkRef

theorem plain_optionalJson (text : Option Text) : (optionalJson text).Plain limit := by
  cases text <;> simp [optionalJson]

theorem optionalJson_injective {text text' : Option Text}
    (hsorted : (optionalJson text).sorted = (optionalJson text').sorted) : text = text' := by
  cases text with
  | none =>
    cases text' with
    | none => rfl
    | some t' => cases hsorted
  | some t =>
    cases text' with
    | none => cases hsorted
    | some t' => exact congrArg some (Json.str.inj hsorted)

/-- The fields of a part are bound, and no offset in it has more digits than the limit allows. -/
def Part.Bound (limit : Option Nat) : Part → Prop
  | .deployment d => ∀ ref ∈ d.linkRefs, ∀ offset ∈ ref.offsets, (Json.int offset).Plain limit
  | part => ∀ field ∈ part.fields, field.Bound

theorem Constructor.plain_toJson (hlimit : CoversTypes limit) {c : Constructor}
    (h : ∀ field ∈ c.inputs, field.Bound) : c.toJson.Plain limit := by
  rw [toJson, Json.plain_obj]
  refine ⟨by simp only [List.map_cons, List.map_nil]; decide, ?_⟩
  simpa using Field.plain_listJson hlimit h

theorem Method.plain_toJson (hlimit : CoversTypes limit) {m : Method}
    (h : ∀ field ∈ m.inputs ++ m.outputs, field.Bound) : m.toJson.Plain limit := by
  rw [List.forall_mem_append] at h
  rw [toJson, Json.plain_obj]
  refine ⟨by simp only [List.map_cons, List.map_nil]; decide, ?_⟩
  simpa using ⟨Field.plain_listJson hlimit h.1, Field.plain_listJson hlimit h.2⟩

theorem EventRecord.plain_toJson (hlimit : CoversTypes limit) {e : EventRecord}
    (h : ∀ field ∈ e.topicFields ++ e.dataFields, field.Bound) : e.toJson.Plain limit := by
  rw [List.forall_mem_append] at h
  rw [toJson, Json.plain_obj]
  refine ⟨by simp only [List.map_cons, List.map_nil]; decide, ?_⟩
  simpa using ⟨plain_optionalJson e.topic, Field.plain_listJson hlimit h.1,
    Field.plain_listJson hlimit h.2⟩

theorem ErrorRecord.plain_toJson (hlimit : CoversTypes limit) {e : ErrorRecord}
    (h : ∀ field ∈ e.fields, field.Bound) : e.toJson.Plain limit := by
  rw [toJson, Json.plain_obj]
  refine ⟨by simp only [List.map_cons, List.map_nil]; decide, ?_⟩
  simpa using Field.plain_listJson hlimit h

theorem Deployment.plain_linkRefJson {ref : LinkRef}
    (h : ∀ offset ∈ ref.offsets, (Json.int offset).Plain limit) :
    (linkRefJson ref).Plain limit := by
  rw [linkRefJson, Json.plain_obj]
  refine ⟨by simp only [List.map_cons, List.map_nil]; decide, ?_⟩
  simpa using h

theorem Deployment.plain_networkJson (network : Text × Text) :
    (networkJson network).Plain limit := by
  rw [networkJson, Json.plain_obj]
  exact ⟨by simp only [List.map_cons, List.map_nil]; decide, by simp⟩

theorem Deployment.plain_toJson {d : Deployment}
    (h : ∀ ref ∈ d.linkRefs, ∀ offset ∈ ref.offsets, (Json.int offset).Plain limit) :
    d.toJson.Plain limit := by
  have hrefs : (Json.arr (d.linkRefs.map linkRefJson)).Plain limit := by
    rw [Json.plain_arr, List.forall_mem_map]
    exact fun ref href => plain_linkRefJson (h ref href)
  have hnetworks : (Json.arr (d.networks.map networkJson)).Plain limit := by
    rw [Json.plain_arr, List.forall_mem_map]
    exact fun network _ => plain_networkJson network
  rw [toJson, Json.plain_obj]
  refine ⟨by simp only [List.map_cons, List.map_nil]; decide, ?_⟩
  simp only [List.forall_mem_cons]
  exact ⟨Json.plain_str _, plain_optionalJson d.bytecode, hrefs, hnetworks,
    fun _ hmem => absurd hmem List.not_mem_nil⟩

theorem Part.plain_toJson (hlimit : CoversTypes limit) {part : Part} (h : part.Bound limit) :
    part.toJson.Plain limit := by
  cases part with
  | constructor c => exact Constructor.plain_toJson hlimit h
  | method m => exact Method.plain_toJson hlimit h
  | event e => exact EventRecord.plain_toJson hlimit h
  | error e => exact ErrorRecord.plain_toJson hlimit h
  | deployment d => exact Deployment.plain_toJson h

end Client

end

namespace Client

theorem Constructor.toJson_injective {c c' : Constructor} (h : ∀ field ∈ c.inputs, field.Bound)
    (h' : ∀ field ∈ c'.inputs, field.Bound) (hmatch : c.toJson.Matches c'.toJson) : c = c' :=
  Constructor.ext
    (Field.listJson_injective h h' (hmatch.field "inputs" rfl rfl))
    (Json.bool.inj (hmatch.field "payable" rfl rfl))

theorem Mutability.name_injective : Function.Injective Mutability.name := by
  intro m m' h
  have hback := Mutability.ofName?_name m
  rw [h, Mutability.ofName?_name] at hback
  exact (Option.some.inj hback).symm

theorem Method.toJson_injective {m m' : Method} (h : ∀ field ∈ m.inputs ++ m.outputs, field.Bound)
    (h' : ∀ field ∈ m'.inputs ++ m'.outputs, field.Bound) (hmatch : m.toJson.Matches m'.toJson) :
    m = m' := by
  rw [List.forall_mem_append] at h h'
  exact Method.ext (hmatch.text "identifier" rfl rfl) (hmatch.text "name" rfl rfl)
    (hmatch.text "signature" rfl rfl) (hmatch.text "selector" rfl rfl)
    (Field.listJson_injective h.1 h'.1 (hmatch.field "inputs" rfl rfl))
    (Field.listJson_injective h.2 h'.2 (hmatch.field "outputs" rfl rfl))
    (Mutability.name_injective (hmatch.text "mutability" rfl rfl))

theorem EventRecord.toJson_injective {e e' : EventRecord}
    (h : ∀ field ∈ e.topicFields ++ e.dataFields, field.Bound)
    (h' : ∀ field ∈ e'.topicFields ++ e'.dataFields, field.Bound)
    (hmatch : e.toJson.Matches e'.toJson) : e = e' := by
  rw [List.forall_mem_append] at h h'
  exact EventRecord.ext (hmatch.text "identifier" rfl rfl) (hmatch.text "name" rfl rfl)
    (hmatch.text "signature" rfl rfl) (optionalJson_injective (hmatch.field "topic" rfl rfl))
    (Json.bool.inj (hmatch.field "anonymous" rfl rfl))
    (Field.listJson_injective h.1 h'.1 (hmatch.field "topic_fields" rfl rfl))
    (Field.listJson_injective h.2 h'.2 (hmatch.field "data_fields" rfl rfl))

theorem ErrorRecord.toJson_injective {e e' : ErrorRecord} (h : ∀ field ∈ e.fields, field.Bound)
    (h' : ∀ field ∈ e'.fields, field.Bound) (hmatch : e.toJson.Matches e'.toJson) : e = e' :=
  ErrorRecord.ext (hmatch.text "identifier" rfl rfl) (hmatch.text "name" rfl rfl)
    (hmatch.text "signature" rfl rfl) (hmatch.text "selector" rfl rfl)
    (Field.listJson_injective h h' (hmatch.field "fields" rfl rfl))

theorem Deployment.linkRefJson_injective {ref ref' : LinkRef}
    (hsorted : (linkRefJson ref).sorted = (linkRefJson ref').sorted) : ref = ref' := by
  have hplain : ∀ ref : LinkRef, (linkRefJson ref).Plain none := fun ref =>
    plain_linkRefJson fun _ _ _ hbound => by cases hbound
  have hmatch : Json.Matches _ _ := ⟨hplain ref, hplain ref', hsorted⟩
  have hoffsets := Json.eq_of_sorted_map (f := fun offset : Nat => Json.int offset)
    (fun _ _ _ _ heq => Int.natCast_inj.mp (Json.int.inj heq)) (hmatch.field "offsets" rfl rfl)
  exact LinkRef.ext (hmatch.text "placeholder" rfl rfl) hoffsets

theorem Deployment.networkJson_injective {network network' : Text × Text}
    (hsorted : (networkJson network).sorted = (networkJson network').sorted) :
    network = network' := by
  have hmatch : Json.Matches _ _ := ⟨plain_networkJson network, plain_networkJson network', hsorted⟩
  exact Prod.ext (hmatch.text "network" rfl rfl) (hmatch.text "address" rfl rfl)

theorem Deployment.toJson_injective {d d' : Deployment} (hmatch : d.toJson.Matches d'.toJson) :
    d = d' :=
  Deployment.ext (optionalJson_injective (hmatch.field "bytecode" rfl rfl))
    (Json.eq_of_sorted_map (fun _ _ _ _ => linkRefJson_injective)
      (hmatch.field "link_refs" rfl rfl))
    (Json.eq_of_sorted_map (fun _ _ _ _ => networkJson_injective)
      (hmatch.field "networks" rfl rfl))

namespace Part

def kindWord : Part → Text
  | constructor _ => "constructor"
  | method _ => "method"
  | event _ => "event"
  | error _ => "error"
  | deployment _ => "deployment"

theorem field?_kind (part : Part) : part.toJson.field? "kind" = some (.str part.kindWord) := by
  cases part <;> rfl

/-- Parts are told apart by their JSON, even as a map. -/
theorem toJson_injective {part part' : Part} (h : part.Bound none) (h' : part'.Bound none)
    (hsorted : part.toJson.sorted = part'.toJson.sorted) : part = part' := by
  have hmatch : Json.Matches _ _ := ⟨plain_toJson Json.coversTypes_none h,
    plain_toJson Json.coversTypes_none h', hsorted⟩
  have hword := hmatch.text "kind" part.field?_kind part'.field?_kind
  cases part with
  | constructor c =>
    cases part' with
    | constructor c' => rw [Constructor.toJson_injective h h' hmatch]
    | _ => exact absurd hword (by simp only [kindWord]; decide)
  | method m =>
    cases part' with
    | method m' => rw [Method.toJson_injective h h' hmatch]
    | _ => exact absurd hword (by simp only [kindWord]; decide)
  | event e =>
    cases part' with
    | event e' => rw [EventRecord.toJson_injective h h' hmatch]
    | _ => exact absurd hword (by simp only [kindWord]; decide)
  | error e =>
    cases part' with
    | error e' => rw [ErrorRecord.toJson_injective h h' hmatch]
    | _ => exact absurd hword (by simp only [kindWord]; decide)
  | deployment d =>
    cases part' with
    | deployment d' => rw [Deployment.toJson_injective hmatch]
    | _ => exact absurd hword (by simp only [kindWord]; decide)

end Part

def Bound (limit : Option Nat) (client : Client) : Prop :=
  ∀ part ∈ client.parts, part.Bound limit

theorem plain_toJson {limit : Option Nat} (hlimit : CoversTypes limit) {client : Client}
    (h : client.Bound limit) : client.toJson.Plain limit := by
  have hparts : (Json.arr client.partsJson).Plain limit := by
    rw [partsJson_eq_map, Json.plain_arr, List.forall_mem_map]
    exact fun part hpart => Part.plain_toJson hlimit (h part hpart)
  have himports : (Json.arr (client.imports.map .str)).Plain limit := by
    rw [Json.plain_arr, List.forall_mem_map]
    exact fun name _ => Json.plain_str name
  rw [toJson, Json.plain_obj]
  refine ⟨by simp only [List.map_cons, List.map_nil]; decide, ?_⟩
  simp only [List.forall_mem_cons]
  exact ⟨Json.plain_str _, Json.plain_str _, Json.plain_str _, Json.plain_str _, Json.plain_str _,
    himports, plain_optionalJson _, Json.plain_bool _, hparts,
    fun _ hmem => absurd hmem List.not_mem_nil⟩

/-- Modules are told apart by their JSON, even as a map. -/
theorem toJson_injective {client client' : Client} (h : client.Bound none)
    (h' : client'.Bound none) (hsorted : client.toJson.sorted = client'.toJson.sorted) :
    client = client' := by
  have hmatch : Json.Matches _ _ := ⟨plain_toJson Json.coversTypes_none h,
    plain_toJson Json.coversTypes_none h', hsorted⟩
  have hunits := hmatch.field "units" rfl rfl
  rw [partsJson_eq_map, partsJson_eq_map] at hunits
  have hparts := Json.eq_of_sorted_map (fun part hpart part' hpart' =>
    Part.toJson_injective (h part hpart) (h' part' hpart')) hunits
  have hkinds := filterMap_parts client
  rw [hparts] at hkinds
  obtain ⟨hconstructor, hmethods, hevents, herrors, hdeployment⟩ := hkinds
  obtain ⟨hconstructor', hmethods', hevents', herrors', hdeployment'⟩ := filterMap_parts client'
  have hfallback := optionalJson_injective (hmatch.field "fallback" rfl rfl)
  exact Client.ext (hmatch.text "contract_name" rfl rfl) (hmatch.text "identifier" rfl rfl)
    (hmatch.text "runtime_package" rfl rfl)
    (List.head_eq_of_cons_eq (hconstructor.symm.trans hconstructor'))
    (hmethods.symm.trans hmethods') (hevents.symm.trans hevents') (herrors.symm.trans herrors')
    (List.head_eq_of_cons_eq (hdeployment.symm.trans hdeployment'))
    (Option.map_injective Mutability.name_injective hfallback)
    (Json.bool.inj (hmatch.field "receive" rfl rfl))

end Client

end AbiBindings
