import AbiBindings.Client.Source
import Mathlib.Data.List.Basic

/-!
The parts of a module as one list: the constructor, the methods, the records of events and of
errors, and the deployment. This is the list that the JSON of a module holds.
-/

namespace AbiBindings.Client

inductive Part where
  | constructor (c : Constructor)
  | method (m : Method)
  | event (e : EventRecord)
  | error (e : ErrorRecord)
  | deployment (d : Deployment)

namespace Part

def toJson : Part → Json
  | constructor c => c.toJson
  | method m => m.toJson
  | event e => e.toJson
  | error e => e.toJson
  | deployment d => d.toJson

def fields : Part → List Field
  | constructor c => c.inputs
  | method m => m.inputs ++ m.outputs
  | event e => e.topicFields ++ e.dataFields
  | error e => e.fields
  | deployment _ => []

def constructor? : Part → Option Constructor
  | constructor c => some c
  | _ => none

def method? : Part → Option Method
  | method m => some m
  | _ => none

def event? : Part → Option EventRecord
  | event e => some e
  | _ => none

def error? : Part → Option ErrorRecord
  | error e => some e
  | _ => none

def deployment? : Part → Option Deployment
  | deployment d => some d
  | _ => none

end Part

/-- The parts of a module, in the order in which they are written. -/
def parts (client : Client) : List Part :=
  .constructor client.constructor :: client.methods.map .method ++ client.events.map .event ++
    client.errors.map .error ++ [.deployment client.deployment]

theorem partsJson_eq_map (client : Client) : client.partsJson = client.parts.map Part.toJson := by
  simp only [partsJson, parts, List.cons_append, List.map_cons, List.map_append, List.map_map,
    List.map_nil]
  rfl

/-- The parts of each kind are all that the module has of it. -/
theorem filterMap_parts (client : Client) :
    client.parts.filterMap Part.constructor? = [client.constructor] ∧
      client.parts.filterMap Part.method? = client.methods ∧
      client.parts.filterMap Part.event? = client.events ∧
      client.parts.filterMap Part.error? = client.errors ∧
      client.parts.filterMap Part.deployment? = [client.deployment] := by
  simp [parts, Part.constructor?, Part.method?, Part.event?, Part.error?, Part.deployment?,
    List.filterMap_cons, List.filterMap_map, Function.comp_def, List.filterMap_none]

/-- What holds of every kind of member holds of all members of a module. -/
theorem Source.forall_members {client : Client} {P : Source.Member → Prop}
    (hdeploy : P (.deploy client.constructor)) (hlinked : P (.deployLinked client.constructor))
    (hview : ∀ m ∈ client.methods, P (.view m)) (hsend : ∀ m ∈ client.methods, P (.send m))
    (hevents : P .events) (herrors : P .errors) : ∀ member ∈ Source.members client, P member := by
  simp only [Source.members, List.forall_mem_append, List.forall_mem_map]
  refine ⟨⟨⟨?deployment, ?methods⟩, ?events⟩, ?errors⟩
  case deployment =>
    split
    · simp
    split
    · simpa using hlinked
    · simpa using hdeploy
  case methods =>
    intro m hm
    split
    · exact hview m hm
    · exact hsend m hm
  case events => split <;> simp [hevents]
  case errors => split <;> simp [herrors]

end AbiBindings.Client
