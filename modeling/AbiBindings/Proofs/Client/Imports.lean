import AbiBindings.Proofs.Client.Scope
import AbiBindings.Proofs.Text.Order

/-!
What a module imports. The import list follows the parts of a module, and the source its members;
both come to the same parts of the runtime package.
-/

namespace AbiBindings

open Identifier (AreParamNames IsParamName)
open Script

namespace Client

section

variable {client : Client} {word : Text}

theorem mem_imports : word ∈ client.imports ↔ word = "Contract" ∨
    (∃ m ∈ client.methods, m.runtimeName = word) ∨ (client.events ≠ [] ∧ word = "EventLog") ∨
      (client.errors ≠ [] ∧ word = "RevertError") ∨ word ∈ client.deployment.runtimeNames := by
  have hconst {α : Type} {xs : List α} {t : Text} :
      word ∈ xs.map (fun _ => t) ↔ xs ≠ [] ∧ word = t := by
    cases xs with
    | nil => simp
    | cons x xs => simp
  rw [imports, Text.mem_sortDistinct, runtimeNames]
  simp only [List.mem_cons, List.mem_append, List.mem_map, hconst, or_assoc]

theorem mem_runtimeNames {d : Deployment} : word ∈ d.runtimeNames ↔
    (d.bytecode.isSome = true ∧ word = "Deployer") ∨
      (d.linkRefs ≠ [] ∧ word = "link_bytecode") := by
  rw [Deployment.runtimeNames]
  cases d.bytecode <;> cases d.linkRefs <;> simp

/-- The linker is imported exactly if a library is open. -/
theorem link_bytecode_mem_imports :
    ("link_bytecode" : Text) ∈ client.imports ↔ client.deployment.linkRefs ≠ [] := by
  have hmethod (m : Method) : m.runtimeName ≠ "link_bytecode" := by
    unfold Method.runtimeName
    split <;> decide
  rw [mem_imports, mem_runtimeNames]
  constructor
  · rintro (heq | ⟨m, -, heq⟩ | ⟨-, heq⟩ | ⟨-, heq⟩ | ⟨-, heq⟩ | ⟨hrefs, -⟩)
    · exact absurd heq (by decide)
    · exact absurd heq (hmethod m)
    · exact absurd heq (by decide)
    · exact absurd heq (by decide)
    · exact absurd heq (by decide)
    · exact hrefs
  · exact fun hrefs => .inr (.inr (.inr (.inr (.inr ⟨hrefs, rfl⟩))))

end

namespace Source.Template

/-- The parts of the runtime package that a member uses. -/
def runtimeNames : Template → List Text
  | deploy => ["Deployer"]
  | deployLinked => ["Deployer", "link_bytecode"]
  | view => ["ViewCall"]
  | send => ["Transaction"]
  | events => ["EventLog"]
  | errors => ["RevertError"]

/-- They are the names from the runtime package among all names in what the member returns. -/
theorem filter_names (template : Template) :
    (template.leadingNames ++ template.trailingNames).filter (· ∈ runtimeWords) =
      template.runtimeNames := by
  cases template <;> decide

end Source.Template

section

variable {client : Client} {word : Text}

/-- Which members a module has. -/
theorem mem_members {member : Source.Member} : member ∈ Source.members client ↔
    (client.deployment.bytecode.isSome = true ∧ client.deployment.linkRefs ≠ [] ∧
      member = .deployLinked client.constructor) ∨
    (client.deployment.bytecode.isSome = true ∧ client.deployment.linkRefs = [] ∧
      member = .deploy client.constructor) ∨
    (∃ m ∈ client.methods, member = if m.isReadOnly then .view m else .send m) ∨
    (client.events ≠ [] ∧ member = .events) ∨ (client.errors ≠ [] ∧ member = .errors) := by
  have hcontains : client.imports.contains "link_bytecode" =
      decide (client.deployment.linkRefs ≠ []) := by
    rw [List.contains_eq_mem, decide_eq_decide]
    exact link_bytecode_mem_imports
  have hdeployment : member ∈ (if client.deployment.bytecode.isNone then []
      else if client.imports.contains "link_bytecode" then
        [Source.Member.deployLinked client.constructor]
      else [.deploy client.constructor]) ↔
      (client.deployment.bytecode.isSome = true ∧ client.deployment.linkRefs ≠ [] ∧
        member = .deployLinked client.constructor) ∨
      (client.deployment.bytecode.isSome = true ∧ client.deployment.linkRefs = [] ∧
        member = .deploy client.constructor) := by
    rw [hcontains]
    cases client.deployment.bytecode <;> cases client.deployment.linkRefs <;> simp
  have hhelper {α : Type} (xs : List α) (helper : Source.Member) :
      member ∈ (if xs.isEmpty then [] else [helper]) ↔ xs ≠ [] ∧ member = helper := by
    cases xs <;> simp
  rw [Source.members, List.mem_append, List.mem_append, List.mem_append, hdeployment, hhelper,
    hhelper, List.mem_map]
  simp only [or_assoc, eq_comm]

/-- The import list has what the members use, and what the contract class extends. -/
theorem mem_imports_iff (hlinks : client.deployment.linkRefs ≠ [] →
    client.deployment.bytecode.isSome = true) :
    word ∈ client.imports ↔ word = "Contract" ∨
      ∃ member ∈ Source.members client, word ∈ member.template.runtimeNames := by
  rw [mem_imports, mem_runtimeNames]
  constructor
  · rintro (heq | ⟨m, hm, rfl⟩ | ⟨hne, rfl⟩ | ⟨hne, rfl⟩ | ⟨hcode, rfl⟩ | ⟨hrefs, rfl⟩)
    · exact .inl heq
    · refine .inr ⟨_, mem_members.mpr (.inr (.inr (.inl ⟨m, hm, rfl⟩))), ?_⟩
      unfold Method.runtimeName
      split <;> exact List.mem_singleton_self _
    · exact .inr ⟨.events, mem_members.mpr (.inr (.inr (.inr (.inl ⟨hne, rfl⟩)))),
        List.mem_singleton_self _⟩
    · exact .inr ⟨.errors, mem_members.mpr (.inr (.inr (.inr (.inr ⟨hne, rfl⟩)))),
        List.mem_singleton_self _⟩
    · by_cases hrefs : client.deployment.linkRefs = []
      · exact .inr ⟨_, mem_members.mpr (.inr (.inl ⟨hcode, hrefs, rfl⟩)),
          List.mem_singleton_self _⟩
      · exact .inr ⟨_, mem_members.mpr (.inl ⟨hcode, hrefs, rfl⟩), List.mem_cons_self⟩
    · exact .inr ⟨_, mem_members.mpr (.inl ⟨hlinks hrefs, hrefs, rfl⟩),
        List.mem_cons_of_mem _ (List.mem_singleton_self _)⟩
  · rintro (heq | ⟨member, hmember, hword⟩)
    · exact .inl heq
    rcases mem_members.mp hmember with ⟨hcode, hrefs, rfl⟩ | ⟨hcode, -, rfl⟩ | ⟨m, hm, rfl⟩ |
      ⟨hne, rfl⟩ | ⟨hne, rfl⟩
    · rcases List.mem_cons.mp hword with rfl | hlinker
      · exact .inr (.inr (.inr (.inr (.inl ⟨hcode, rfl⟩))))
      · exact .inr (.inr (.inr (.inr (.inr ⟨hrefs, List.mem_singleton.mp hlinker⟩))))
    · exact .inr (.inr (.inr (.inr (.inl ⟨hcode, List.mem_singleton.mp hword⟩))))
    · refine .inr (.inl ⟨m, hm, ?_⟩)
      unfold Method.runtimeName
      split at hword
      · next hread => rw [if_pos hread, List.mem_singleton.mp hword]
      · next hsend => rw [if_neg hsend, List.mem_singleton.mp hword]
    · exact .inr (.inr (.inl ⟨hne, List.mem_singleton.mp hword⟩))
    · exact .inr (.inr (.inr (.inl ⟨hne, List.mem_singleton.mp hword⟩)))

end

/-- Whether a member of a module is written by one of some templates. -/
def Source.Uses (client : Client) (templates : List Source.Template) : Prop :=
  ∃ member ∈ Source.members client, member.template ∈ templates

/-- What certain templates use is imported exactly if a member is written by one of them. -/
theorem mem_imports_of_uses {client : Client} (hlinks : client.deployment.linkRefs ≠ [] →
    client.deployment.bytecode.isSome = true) {word : Text} (hword : word ≠ "Contract")
    (templates : List Source.Template)
    (htemplates : ∀ template : Source.Template,
      word ∈ template.runtimeNames ↔ template ∈ templates) :
    word ∈ client.imports ↔ Source.Uses client templates := by
  simp only [mem_imports_iff hlinks, hword, false_or, htemplates]
  rfl

/-- Arguments are not called like parts of the runtime package, so what a member returns shows which
of these it uses. -/
theorem mem_returned {member : Source.Member} (h : AreParamNames (identifiers member.inputs))
    {word : Text} :
    word ∈ runtimeWords ∧ word ∈ member.returned ↔ word ∈ member.template.runtimeNames := by
  have hwords : ∀ name ∈ runtimeWords, ¬ IsParamName name := by decide
  rw [← Source.Template.filter_names, List.mem_filter, decide_eq_true_iff, Source.Member.returned]
  simp only [List.mem_append]
  constructor
  · rintro ⟨hword, (hleading | hargument) | htrailing⟩
    · exact ⟨.inl hleading, hword⟩
    · exact absurd (h.names word hargument) (hwords word hword)
    · exact ⟨.inr htrailing, hword⟩
  · rintro ⟨hleading | htrailing, hword⟩
    · exact ⟨hword, .inl (.inl hleading)⟩
    · exact ⟨hword, .inr htrailing⟩

/-- Open libraries are libraries of some bytecode. -/
theorem Assembles.bytecode_of_linkRefs {contract : Contract} {package : Text} {name : Option Text}
    {client : Client} (h : Assembles contract package name client)
    (hrefs : client.deployment.linkRefs ≠ []) : client.deployment.bytecode.isSome = true := by
  rw [h.deployment, deploymentOf] at hrefs ⊢
  cases hcode : contract.artifact.bytecode with
  | none =>
    rw [hcode] at hrefs
    exact absurd rfl hrefs
  | some code => rfl

/-- The import list of a module is increasing, and it has what the members of the module use: the
class to extend in any case, and each other part of the runtime package exactly if a member is
written that uses it. The names in what the members return are the evidence. -/
theorem imports_ofContract {contract : Contract} {package : Text} {name : Option Text}
    {client : Client} (h : ofContract contract package name = .ok client) :
    Text.Increasing client.imports ∧
    (∀ word ∈ client.imports, word ∈ runtimeWords) ∧
    ("Contract" : Text) ∈ client.imports ∧
    (("Deployer" : Text) ∈ client.imports ↔ Source.Uses client [.deploy, .deployLinked]) ∧
    (("link_bytecode" : Text) ∈ client.imports ↔ Source.Uses client [.deployLinked]) ∧
    (("ViewCall" : Text) ∈ client.imports ↔ Source.Uses client [.view]) ∧
    (("Transaction" : Text) ∈ client.imports ↔ Source.Uses client [.send]) ∧
    (("EventLog" : Text) ∈ client.imports ↔ Source.Uses client [.events]) ∧
    (("RevertError" : Text) ∈ client.imports ↔ Source.Uses client [.errors]) ∧
    ∀ artifact aliases, Contract.ofArtifact artifact aliases = .ok contract →
      ∀ word, word ∈ client.imports ↔ word = "Contract" ∨
        ∃ member ∈ Source.members client,
          word ∈ runtimeWords ∧ word ∈ returnedNames member.text := by
  have hlinks := (assembles_ofContract h).bytecode_of_linkRefs
  have huses {word : Text} (hword : word ≠ "Contract") := mem_imports_of_uses hlinks hword
  refine ⟨Text.increasing_sortDistinct _, mem_runtimeWords client, mem_imports.mpr (.inl rfl),
    huses (by decide) _ ?_, huses (by decide) _ ?_, huses (by decide) _ ?_,
    huses (by decide) _ ?_, huses (by decide) _ ?_, huses (by decide) _ ?_, ?evidence⟩
  case evidence =>
    intro artifact aliases hcontract word
    have hscoped := scoped_ofContract hcontract h
    rw [mem_imports_iff hlinks]
    refine or_congr_right (exists_congr fun member => and_congr_right fun hmember => ?_)
    rw [hscoped.returnedNames_member member hmember,
      mem_returned (hscoped.inputs_member member hmember)]
  all_goals rintro ⟨⟩ <;> decide

/-- A module with open libraries and a function that only reads. -/
theorem imports_ofContract_capturing :
    ∃ contract client, Contract.ofArtifact Contract.capturing [] = .ok contract ∧
      ofContract contract "runtime" none = .ok client ∧
      client.imports =
        ["Contract", "Deployer", "EventLog", "RevertError", "ViewCall", "link_bytecode"] ∧
      Text.Increasing client.imports ∧ Source.Uses client [.deployLinked] ∧
      ¬ Source.Uses client [.send] ∧
      ∀ word, word ∈ client.imports ↔ word = "Contract" ∨
        ∃ member ∈ Source.members client,
          word ∈ runtimeWords ∧ word ∈ returnedNames member.text := by
  obtain ⟨contract, client, hcontract, h, himports⟩ : ∃ contract client,
      Contract.ofArtifact Contract.capturing [] = .ok contract ∧
      ofContract contract "runtime" none = .ok client ∧
      client.imports =
        ["Contract", "Deployer", "EventLog", "RevertError", "ViewCall", "link_bytecode"] :=
    ⟨_, _, rfl, rfl, rfl⟩
  obtain ⟨hincreasing, -, -, -, hlinked, -, hsend, -, -, hevidence⟩ := imports_ofContract h
  have hlinker : ("link_bytecode" : Text) ∈ client.imports := by
    rw [himports]
    decide
  have hnosend : ("Transaction" : Text) ∉ client.imports := by
    rw [himports]
    decide
  exact ⟨contract, client, hcontract, h, himports, hincreasing, hlinked.mp hlinker,
    fun huses => hnosend (hsend.mpr huses), hevidence Contract.capturing [] hcontract⟩

end Client

end AbiBindings
