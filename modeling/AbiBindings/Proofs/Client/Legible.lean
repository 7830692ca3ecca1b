import AbiBindings.Proofs.Client.Encodable
import AbiBindings.Proofs.Client.Naming
import AbiBindings.Proofs.Script.Values

/-!
What stands in the source outside literals and comments: identifiers, annotations and the package.
None of it has a quote mark, a number sign or a backslash, and none of it has an equals sign.
-/

namespace AbiBindings

open Identifier (AreParamNames IsWord)
open Outcome

namespace Client

def Worded (fields : List Field) : Prop := ∀ field ∈ fields, IsWord field.identifier

structure Legible (client : Client) : Prop where
  identifier : IsWord client.identifier
  package : ∀ c ∈ Text.dropLineEnd client.runtimePackage, Script.isPathPart c = true
  inputs : Worded client.constructor.inputs
  methods : ∀ m ∈ client.methods, IsWord m.identifier ∧ Worded m.inputs
  events : ∀ e ∈ client.events, IsWord e.identifier ∧ Worded (e.topicFields ++ e.dataFields)
  errors : ∀ e ∈ client.errors, IsWord e.identifier ∧ Worded e.fields

theorem worded_of_areParamNames {fields : List Field} (h : AreParamNames (identifiers fields)) :
    Worded fields := fun _ hfield => (h.names _ (List.mem_map_of_mem hfield)).isWord

theorem Scoped.legible {client : Client} (h : client.Scoped)
    (hpackage : ∀ c ∈ Text.dropLineEnd client.runtimePackage, Script.isPathPart c = true) :
    client.Legible where
  identifier := h.identifier
  package := hpackage
  inputs := worded_of_areParamNames h.inputs
  methods m hm := ⟨(h.methods m hm).1, worded_of_areParamNames (h.methods m hm).2.1⟩
  events e he := ⟨(h.events e he).1, worded_of_areParamNames (h.events e he).2⟩
  errors e he := ⟨(h.errors e he).1, worded_of_areParamNames (h.errors e he).2⟩

end Client

end AbiBindings
