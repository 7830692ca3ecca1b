import AbiBindings.Proofs.Client.Members
import AbiBindings.Proofs.Script.Names

/-!
Names inside the contract class. What a method returns refers to the runtime and to constants of the
module, and its arguments have other names than these. Records give types to their fields, and these
have other names than the constants of the record, in whatever order the fields stand.
-/

namespace AbiBindings

open Identifier (AreParamNames IsParamName IsWord)
open Outcome
open Script
open Text (Plain)

namespace Client

namespace Source

/-- What a member is written by, whatever fields it takes. -/
inductive Template where
  | deploy
  | deployLinked
  | view
  | send
  | events
  | errors
deriving DecidableEq, Repr

namespace Template

/-- The names in what a member returns, in front of its arguments. -/
def leadingNames : Template → List Text
  | deploy => ["Deployer", "cls", "BYTECODE"]
  | deployLinked =>
    ["Deployer", "cls", "link_bytecode", "BYTECODE", "LINK_REFERENCES", "libraries"]
  | view => ["ViewCall", "self"]
  | send => ["Transaction", "self"]
  | events => ["EventLog", "self", "event", "receipt_or_logs"]
  | errors => ["RevertError", "data", "ERRORS"]

/-- The names in what a member returns, behind its arguments. -/
def trailingNames : Template → List Text
  | events => []
  | errors => []
  | _ => ["overrides"]

/-- A member that takes fields refers besides them to nothing that a field could be called. -/
theorem not_isParamName {template : Template} (hevents : template ≠ .events)
    (herrors : template ≠ .errors) :
    ∀ name ∈ template.leadingNames ++ template.trailingNames, ¬ IsParamName name := by
  cases template with
  | events => exact absurd rfl hevents
  | errors => exact absurd rfl herrors
  | _ => decide

end Template

namespace Member

def template : Member → Template
  | deploy _ => .deploy
  | deployLinked _ => .deployLinked
  | view _ => .view
  | send _ => .send
  | events => .events
  | errors => .errors

def inputs : Member → List Field
  | deploy c => c.inputs
  | deployLinked c => c.inputs
  | view m => m.inputs
  | send m => m.inputs
  | events => []
  | errors => []

def returned (member : Member) : List Text :=
  member.template.leadingNames ++ identifiers member.inputs ++ member.template.trailingNames

end Member

end Source

theorem lineReads_blank {β : Type} (read : Line → β) : LineReads read "" (read []) :=
  lineReads_plain (by decide)

/-- A returned call whose arguments stand in a list refers to what stands around the list, too. -/
theorem lineReturns_list {fields : List Field} (h : AreParamNames (identifiers fields))
    (before after : Line) :
    lineReturns (codes "        return " ++ (before ++
      (.code '[' :: (codes (Source.arguments fields) ++ .code ']' :: after)))) =
      names before ++ identifiers fields ++ names after := by
  rw [lineReturns_return, Source.arguments, names_brackets, List.append_assoc]
  · rfl
  · exact h.names

theorem names_payable (b : Bool) :
    names (codes (", payable=" ++ (truthLiteral b ++ ", **overrides)"))) =
      [("overrides" : Text)] := by
  cases b <;> rfl

section

variable {c : Constructor} (h : AreParamNames (identifiers c.inputs))
include h

theorem lineReads_deployer {opening callee : Text} (hplain : Plain opening)
    (hopening : opening = "        return " ++ (callee ++ "[")) :
    LineReads lineReturns (opening ++ Source.arguments c.inputs ++ "], payable=" ++
      truthLiteral c.payable ++ ", **overrides)")
      (names (codes callee) ++ identifiers c.inputs ++ [("overrides" : Text)]) := by
  have hpayable : Plain "], payable=" := by decide
  have hend : Plain ", **overrides)" := by decide
  have hline : Plain (opening ++ Source.arguments c.inputs ++ "], payable=" ++
      truthLiteral c.payable ++ ", **overrides)") := by
    simp only [Text.plain_append]
    exact ⟨⟨⟨⟨hplain, plain_arguments (worded_of_areParamNames h)⟩, hpayable⟩,
      plain_truth c.payable⟩, hend⟩
  have hreads : LineReads lineReturns _ _ := lineReads_plain hline
  have hlist := lineReturns_list h (codes callee)
    (codes (", payable=" ++ (truthLiteral c.payable ++ ", **overrides)")))
  rw [names_payable] at hlist
  rw [← hlist]
  rw [hopening] at hreads ⊢
  simp only [codes_append, List.append_assoc] at hreads ⊢
  exact hreads

theorem returnedNames_deploy :
    returnedNames (Source.deploy c) = (Source.Member.deploy c).returned := by
  have hworded := worded_of_areParamNames h
  have hclassmethod : LineReads lineReturns "    @classmethod" [] :=
    lineReads_fixed (by decide) rfl
  have hhead := (lineSays_completeHead hworded).reads fun _ => lineReturns_of_head
  have hdoc := (lineSays_completeDoc c).reads fun _ => lineReturns_of_doc
  have hopening : ("        return Deployer(cls, BYTECODE, [" : Text) =
      "        return " ++ ("Deployer(cls, BYTECODE, " ++ "[") := by
    simp (disch := rfl) only [Text.ofString_eq]
    rfl
  have hnames : names (codes "Deployer(cls, BYTECODE, ") =
      Source.Template.deploy.leadingNames := by
    simp (disch := rfl) only [Source.Template.leadingNames, Text.ofString_eq]
    rfl
  have hcall := lineReads_deployer h (Text.literal Plain (by decide)) hopening
  rw [hnames] at hcall
  have hlines := returnedNames_lines (.cons (lineReads_blank _) (.cons hclassmethod
    (.cons hhead (.cons hdoc (.cons hcall .nil)))))
  exact hlines.trans (List.append_nil _)

theorem returnedNames_deployLinked :
    returnedNames (Source.deployLinked c) = (Source.Member.deployLinked c).returned := by
  have hworded := worded_of_areParamNames h
  have hclassmethod : LineReads lineReturns "    @classmethod" [] :=
    lineReads_fixed (by decide) rfl
  have hhead := (lineSays_linkedHead hworded).reads fun _ => lineReturns_of_head
  have hdoc := (lineSays_linkedDoc c).reads fun _ => lineReturns_of_doc
  have hopening :
      ("        return Deployer(cls, link_bytecode(BYTECODE, LINK_REFERENCES, libraries), [" :
        Text) = "        return " ++
          ("Deployer(cls, link_bytecode(BYTECODE, LINK_REFERENCES, libraries), " ++ "[") := by
    simp (disch := rfl) only [Text.ofString_eq]
    rfl
  have hnames :
      names (codes "Deployer(cls, link_bytecode(BYTECODE, LINK_REFERENCES, libraries), ") =
        Source.Template.deployLinked.leadingNames := by
    simp (disch := rfl) only [Source.Template.leadingNames, Text.ofString_eq]
    rfl
  have hcall := lineReads_deployer h (Text.literal Plain (by decide)) hopening
  rw [hnames] at hcall
  have hlines := returnedNames_lines (.cons (lineReads_blank _) (.cons hclassmethod
    (.cons hhead (.cons hdoc (.cons hcall .nil)))))
  exact hlines.trans (List.append_nil _)

end

section

variable {m : Method} (hidentifier : IsWord m.identifier)
variable (h : AreParamNames (identifiers m.inputs))

omit hidentifier

include h in
/-- A call with the signature, the selector and the arguments of a method. -/
theorem lineReads_call {opening callee closing : Text} (hplain : Plain opening)
    (hopens : Opens opening) (hopening : opening = "        return " ++ callee)
    (hclosing : Plain closing) (hne : closing ≠ []) :
    LineReads lineReturns (opening ++ Source.callArguments m ++ closing)
      (names (codes callee ++ (codes "self, " ++ ([Token.literal m.signature] ++ (codes ", " ++
        ([Token.literal m.selector] ++ codes ", "))))) ++ identifiers m.inputs ++
        names (codes closing)) := by
  have hpiece := (readsAs_callArguments (worded_of_areParamNames h)).before hclosing hne
  have hcomma : (", [" : Text) = ", " ++ "[" := rfl
  rw [List.append_assoc]
  apply lineReads_behind opening hplain hopens hpiece
  rw [← lineReturns_list h, hopening, callTokens, hcomma]
  simp only [codes_append, List.append_assoc]
  rfl

include hidentifier h

theorem returnedNames_viewMethod :
    returnedNames (Source.viewMethod m) = (Source.Member.view m).returned := by
  have hworded := worded_of_areParamNames h
  have hhead := (lineSays_viewHead hidentifier hworded).reads fun _ => lineReturns_of_head
  have hdoc := (lineSays_methodDoc m).reads fun _ => lineReturns_of_doc
  have hopening : ("        return ViewCall(" : Text) = "        return " ++ "ViewCall(" := rfl
  have hend : Plain ", **overrides)" := by decide
  have hcall := lineReads_call h (by decide) (by decide) hopening hend (by decide)
  have hlines := returnedNames_lines (.cons (lineReads_blank _) (.cons hhead (.cons hdoc
    (.cons hcall .nil))))
  exact hlines.trans (List.append_nil _)

theorem returnedNames_sendMethod :
    returnedNames (Source.sendMethod m) = (Source.Member.send m).returned := by
  have hworded := worded_of_areParamNames h
  have hhead := (lineSays_sendHead hidentifier hworded).reads fun _ => lineReturns_of_head
  have hdoc := (lineSays_methodDoc m).reads fun _ => lineReturns_of_doc
  have hopening : ("        return Transaction(" : Text) =
      "        return " ++ "Transaction(" := rfl
  have hpayable : Plain (", payable=" ++ (truthLiteral m.isPayable ++ ", **overrides)")) := by
    simp only [Text.plain_append]
    exact ⟨by decide, plain_truth m.isPayable, by decide⟩
  have hcall := lineReads_call h (by decide) (by decide) hopening hpayable (List.cons_ne_nil _ _)
  rw [names_payable] at hcall
  have hlines := returnedNames_lines (.cons (lineReads_blank _) (.cons hhead (.cons hdoc
    (.cons hcall .nil))))
  simp only [← List.append_assoc] at hlines
  exact hlines.trans (List.append_nil _)

end

theorem returnedNames_eventsHelper :
    returnedNames Source.eventsHelper = Source.Member.events.returned := by
  have hhead := lineSays_eventsHead.reads fun _ => lineReturns_of_head
  have hdoc := lineSays_eventsDoc.reads fun _ => lineReturns_of_doc
  have hcall : LineReads lineReturns "        return EventLog(self, event).decode(receipt_or_logs)"
      ["EventLog", "self", "event", "receipt_or_logs"] := lineReads_fixed (by decide) rfl
  exact returnedNames_lines (.cons (lineReads_blank _) (.cons hhead (.cons hdoc
    (.cons hcall .nil))))

theorem returnedNames_errorsHelper :
    returnedNames Source.errorsHelper = Source.Member.errors.returned := by
  have hhead := lineSays_errorsHead.reads fun _ => lineReturns_of_head
  have hdoc := lineSays_errorsDoc.reads fun _ => lineReturns_of_doc
  have hcall : LineReads lineReturns "        return RevertError(data, ERRORS)"
      ["RevertError", "data", "ERRORS"] := lineReads_fixed (by decide) rfl
  exact returnedNames_lines (.cons (lineReads_blank _) (.cons hhead (.cons hdoc
    (.cons hcall .nil))))

theorem Scoped.returnedNames_member {client : Client} (h : client.Scoped) :
    ∀ member ∈ Source.members client, returnedNames member.text = member.returned := by
  apply Source.forall_members
  case hdeploy => exact returnedNames_deploy h.inputs
  case hlinked => exact returnedNames_deployLinked h.inputs
  case hview =>
    intro m hm
    obtain ⟨hidentifier, hinputs, -⟩ := h.methods m hm
    exact returnedNames_viewMethod hidentifier hinputs
  case hsend =>
    intro m hm
    obtain ⟨hidentifier, hinputs, -⟩ := h.methods m hm
    exact returnedNames_sendMethod hidentifier hinputs
  case hevents => exact returnedNames_eventsHelper
  case herrors => exact returnedNames_errorsHelper

theorem lineReads_field {field : Field} (h : IsParamName field.identifier) :
    LineReads lineBinds? ("        " ++ field.identifier ++ ": " ++ Source.annotation field)
      (some field.identifier) := by
  have hspaces : ("        " : Text) = Text.spaces 8 := rfl
  have hcolon : (": " : Text) = [CodePoint.ofChar ':', CodePoint.ofChar ' '] := rfl
  have hplain : Plain ("        " ++ field.identifier ++ ": " ++ Source.annotation field) := by
    simp only [Text.plain_append]
    exact ⟨⟨⟨by decide, Text.plain_of_isIdentifierPart h.isWord⟩, by decide⟩, plain_annotated field⟩
  have hreads : LineReads lineBinds? _ _ := lineReads_plain hplain
  have hbinds := lineBinds?_typed 8 h ([CodePoint.ofChar ' '] ++ Source.annotation field)
  rw [hspaces, hcolon] at hreads ⊢
  simp only [List.append_assoc, List.cons_append, List.nil_append] at hreads hbinds ⊢
  rwa [hbinds] at hreads

theorem lineReads_constant {name text : Text} {value : Value} (hname : name ∉ Identifier.keywords)
    (h : LineSays ("        " ++ name ++ " = " ++ text) (some (.assigned name value))) :
    LineReads lineBinds? ("        " ++ name ++ " = " ++ text) (some name) :=
  h.reads fun _ => lineBinds?_of_assigned hname

/-- A record binds its constants and its fields. -/
theorem boundNames_record {identifier : Text} (hidentifier : IsWord identifier) (signature : Text)
    {constants : List (Text × Text)}
    (hconstants : ∀ constant ∈ constants,
      LineReads lineBinds? ("        " ++ constant.1 ++ " = " ++ constant.2) (some constant.1))
    {fields : List Field} (h : AreParamNames (identifiers fields)) :
    boundNames (Source.record identifier signature constants fields) =
      ("SIGNATURE" : Text) :: (constants.map Prod.fst ++ identifiers fields) := by
  have hhead := (lineSays_recordHead hidentifier).reads fun _ => lineBinds?_of_head
  have hdoc := (lineSays_recordDoc signature).reads fun _ => lineBinds?_of_doc
  have hsignature := (lineSays_signature signature).reads
    fun _ => lineBinds?_of_assigned (by decide)
  have hblank : LineReads lineBinds? "" none := lineReads_blank lineBinds?
  have hvalues : List.Forall₂ (LineReads lineBinds?)
      (constants.map fun constant => "        " ++ constant.1 ++ " = " ++ constant.2)
      ((constants.map Prod.fst).map some) := by
    rw [List.map_map, List.forall₂_map_left_iff, List.forall₂_map_right_iff, List.forall₂_same]
    exact hconstants
  have htypes : List.Forall₂ (LineReads lineBinds?)
      (fields.map fun field =>
        "        " ++ field.identifier ++ ": " ++ Source.annotation field)
      ((identifiers fields).map some) := by
    rw [identifiers, List.map_map, List.forall₂_map_left_iff, List.forall₂_map_right_iff,
      List.forall₂_same]
    exact fun field hfield => lineReads_field (h.names _ (List.mem_map_of_mem hfield))
  have hstart := List.Forall₂.cons hblank (.cons hhead (.cons hdoc (.cons hblank
    (.cons hsignature .nil))))
  have hall := boundNames_lines (List.rel_append (List.rel_append (List.rel_append hstart hvalues)
    htypes) (.cons hblank .nil))
  simp only [lines, List.flatMap_append] at hall
  refine hall.trans ?_
  simp

def eventConstants : List Text := ["SIGNATURE", "TOPIC", "INDEXED"]

def errorConstants : List Text := ["SIGNATURE", "SELECTOR"]

theorem boundNames_eventRecord {e : EventRecord} (hidentifier : IsWord e.identifier)
    (h : AreParamNames (identifiers (e.topicFields ++ e.dataFields))) :
    boundNames (Source.eventRecord e) =
      eventConstants ++ identifiers (e.topicFields ++ e.dataFields) := by
  refine boundNames_record hidentifier e.signature ?_ h
  simp only [List.forall_mem_cons, List.not_mem_nil, false_implies, implies_true, and_true]
  exact ⟨lineReads_constant (by decide) (lineSays_topic e.topic),
    lineReads_constant (by decide) (lineSays_indexed e.topicFields)⟩

theorem boundNames_errorRecord {e : ErrorRecord} (hidentifier : IsWord e.identifier)
    (h : AreParamNames (identifiers e.fields)) :
    boundNames (Source.errorRecord e) = errorConstants ++ identifiers e.fields := by
  refine boundNames_record hidentifier e.signature ?_ h
  simp only [List.forall_mem_cons, List.not_mem_nil, false_implies, implies_true, and_true]
  exact lineReads_constant (by decide) (lineSays_selector e.selector)

section

variable {constants : List Text} {fields : List Field} (h : AreParamNames (identifiers fields))
include h

/-- Names that no parameter can have stay apart from identifiers of fields. -/
theorem nodup_append_identifiers (hnodup : constants.Nodup)
    (hfree : ∀ name ∈ constants, ¬ IsParamName name) :
    (constants ++ identifiers fields).Nodup := by
  refine List.nodup_append.mpr ⟨hnodup, h.nodup, ?_⟩
  rintro name hname other hother rfl
  exact hfree name hname (h.names name hother)

end

/-- The arguments of every member have names of their own. -/
theorem Scoped.inputs_member {client : Client} (h : client.Scoped) :
    ∀ member ∈ Source.members client, AreParamNames (identifiers member.inputs) := by
  apply Source.forall_members
  case hdeploy => exact h.inputs
  case hlinked => exact h.inputs
  case hview => exact fun m hm => (h.methods m hm).2.1
  case hsend => exact fun m hm => (h.methods m hm).2.1
  case hevents => exact ⟨List.nodup_nil, nofun⟩
  case herrors => exact ⟨List.nodup_nil, nofun⟩

/-- What a member returns refers to each of its arguments once: at the place of that argument. -/
theorem count_returned {member : Source.Member}
    (h : AreParamNames (identifiers member.inputs)) :
    ∀ identifier ∈ identifiers member.inputs, member.returned.count identifier = 1 := by
  intro identifier hmem
  have hfree : ∀ name ∈ member.template.leadingNames ++ member.template.trailingNames,
      ¬ IsParamName name := by
    cases member with
    | events => cases hmem
    | errors => cases hmem
    | _ => exact Source.Template.not_isParamName nofun nofun
  rw [List.forall_mem_append] at hfree
  have hparam := h.names identifier hmem
  have hleading : member.template.leadingNames.count identifier = 0 :=
    List.count_eq_zero_of_not_mem fun hname => hfree.1 identifier hname hparam
  have htrailing : member.template.trailingNames.count identifier = 0 :=
    List.count_eq_zero_of_not_mem fun hname => hfree.2 identifier hname hparam
  rw [Source.Member.returned, List.count_append, List.count_append, hleading, htrailing,
    List.count_eq_one_of_mem h.nodup hmem]

end Client

namespace Contract

open Client Script

/-- The parameters of a contract have names that fit everywhere. The lists of parameters are those
that the artifact declares. In each list the names all differ, start with a small letter, consist of
small letters, digits and underscores, and are neither keywords nor reserved. In a module, whatever its name, a member of the contract class returns what refers to each
argument once, besides names of other things; and a record gives each of its constants and fields,
in the order in which the fields stand there, a name of its own. -/
theorem ofArtifact_parameters {artifact : Artifact} {aliases : List (Text × Text)}
    {contract : Contract} (h : ofArtifact artifact aliases = .ok contract) :
    NamesParamsOf artifact contract ∧
    (∀ params ∈ contract.paramLists, AreParamNames (params.map NamedParam.identifier)) ∧
    ∀ package name client, Client.ofContract contract package name = .ok client →
      (∀ member ∈ Source.members client,
        returnedNames member.text =
          member.template.leadingNames ++ identifiers member.inputs ++
            member.template.trailingNames ∧
        ∀ identifier ∈ identifiers member.inputs,
          (returnedNames member.text).count identifier = 1) ∧
      (∀ e ∈ client.events,
        boundNames (Source.eventRecord e) =
          eventConstants ++ identifiers (e.topicFields ++ e.dataFields) ∧
        (boundNames (Source.eventRecord e)).Nodup) ∧
      ∀ e ∈ client.errors,
        boundNames (Source.errorRecord e) = errorConstants ++ identifiers e.fields ∧
        (boundNames (Source.errorRecord e)).Nodup := by
  refine ⟨namesParamsOf_ofArtifact h, areParamNames_ofArtifact h, ?_⟩
  intro package name client hclient
  have hscoped := scoped_ofContract h hclient
  refine ⟨?members, ?events, ?errors⟩
  case members =>
    intro member hmember
    have hreturned := hscoped.returnedNames_member member hmember
    refine ⟨hreturned, ?_⟩
    rw [hreturned]
    exact count_returned (hscoped.inputs_member member hmember)
  case events =>
    intro e he
    obtain ⟨hidentifier, hfields⟩ := hscoped.events e he
    have hbound := boundNames_eventRecord hidentifier hfields
    refine ⟨hbound, ?_⟩
    rw [hbound]
    exact nodup_append_identifiers hfields (by decide) (by decide)
  case errors =>
    intro e he
    obtain ⟨hidentifier, hfields⟩ := hscoped.errors e he
    have hbound := boundNames_errorRecord hidentifier hfields
    refine ⟨hbound, ?_⟩
    rw [hbound]
    exact nodup_append_identifiers hfields (by decide) (by decide)

/-- Parameters whose names are one in snake case, reserved or no identifiers: of a constructor with
open libraries, a function, an event whose second input is indexed, and an error. -/
def capturing : Artifact :=
  let param (name : Text) (indexed : Bool) : Param :=
    ⟨name, .elementary (.address none), indexed, none⟩
  { name := "Capturing"
    abi := [
      .constructor ⟨0, [param "libraries" false, param "Cls" false], .payable⟩,
      .function ⟨1, "act", [param "self" false, param "_Self" false, param "" false,
        param "1" false], [param "x" false, param "X" false], .view⟩,
      .event ⟨2, "Acted", [param "Topic" false, param "TOPIC" true, param "signature" false],
        false⟩,
      .error ⟨3, "Failed", [param "SELECTOR" false, param "class" false]⟩]
    bytecode := some ⟨"0x60", [⟨"__Lib__", [1]⟩]⟩
    deployments := [] }

theorem ofArtifact_parameters_capturing :
    ∃ contract client, ofArtifact capturing [] = .ok contract ∧
      Client.ofContract contract "runtime" (some "Other") = .ok client ∧
      NamesParamsOf capturing contract ∧
      (∀ params ∈ contract.paramLists, AreParamNames (params.map NamedParam.identifier)) ∧
      (∀ member ∈ Source.members client, ∀ identifier ∈ identifiers member.inputs,
        (returnedNames member.text).count identifier = 1) ∧
      ∀ e ∈ client.events, (boundNames (Source.eventRecord e)).Nodup := by
  obtain ⟨contract, client, hcontract, hclient⟩ : ∃ contract client,
      ofArtifact capturing [] = .ok contract ∧
        Client.ofContract contract "runtime" (some "Other") = .ok client := ⟨_, _, rfl, rfl⟩
  obtain ⟨hlists, hparams, hmodules⟩ := ofArtifact_parameters hcontract
  obtain ⟨hmembers, hevents, -⟩ := hmodules "runtime" (some "Other") client hclient
  exact ⟨contract, client, hcontract, hclient, hlists, hparams,
    fun member hmember => (hmembers member hmember).2, fun e he => (hevents e he).2⟩

end Contract

end AbiBindings
