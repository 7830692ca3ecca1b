import AbiBindings.Proofs.Client.Outline

/-!
What the members of the contract class say, and so what the whole source of a module says. Only the
signature and the selector stand in a member as literals; all else in its head and its call is
plain.
-/

namespace AbiBindings.Client

open Identifier (IsWord)
open Script
open Text (Plain NotAhead)

section

variable {fields : List Field}

theorem plain_annotated (field : Field) : Plain (Source.annotation field) :=
  (quiet_annotated field).plain

theorem plain_params (h : Worded fields) : Plain (Source.params fields) := by
  rw [Source.params, Text.plain_flatMap]
  intro field hfield
  have hcomma : Plain ", " := by decide
  have hcolon : Plain ": " := by decide
  simp only [Text.plain_append]
  exact ⟨⟨⟨hcomma, Text.plain_of_isIdentifierPart (h field hfield)⟩, hcolon⟩,
    plain_annotated field⟩

theorem plain_arguments (h : Worded fields) : Plain (Source.arguments fields) := by
  have hcomma : Plain ", " := by decide
  rw [Source.arguments, Text.plain_join hcomma, List.forall_mem_map]
  exact fun field hfield => Text.plain_of_isIdentifierPart (h field hfield)

theorem plain_results (outputs : List Field) : Plain (Source.results outputs) := by
  have htuple : Plain "Tuple[" := by decide
  have hcomma : Plain ", " := by decide
  have hclose : Plain "]" := by decide
  have hmany : Plain ("Tuple[" ++ Text.join ", " (outputs.map Source.annotation) ++ "]") := by
    rw [Text.plain_append, Text.plain_append, Text.plain_join hcomma, List.forall_mem_map]
    exact ⟨⟨htuple, fun field _ => plain_annotated field⟩, hclose⟩
  cases outputs with
  | nil =>
    have hnone : Plain "None" := by decide
    exact hnone
  | cons output others =>
    cases others with
    | nil => exact plain_annotated output
    | cons _ _ => exact hmany

theorem plain_truth (b : Bool) : Plain (truthLiteral b) := by cases b <;> decide

end

section

variable {c : Constructor} (h : Worded c.inputs)

theorem unescaped_deployDoc (c : Constructor) : Unescaped (Source.deployDoc c) := by
  unfold Source.deployDoc
  cases c.payable <;> decide

theorem lineSays_deployDoc (c : Constructor) {closing after : Text}
    (hclosing : closing = after ++ "\"\"\"") (hafter : Unescaped after) :
    LineSays ("        \"\"\"" ++ Source.deployDoc c ++ closing)
      (some (.doc (Source.deployDoc c ++ after))) := by
  have hdoc := unescaped_deployDoc c
  exact lineSays_docBefore 8 rfl hclosing hafter hdoc.spells hdoc.le_val

theorem lineSays_completeDoc (c : Constructor) :
    LineSays ("        \"\"\"" ++ Source.deployDoc c ++ ".\"\"\"")
      (some (.doc (Source.deployDoc c ++ "."))) :=
  lineSays_deployDoc c (Text.literal_append rfl) (by decide)

theorem lineSays_linkedDoc (c : Constructor) :
    LineSays ("        \"\"\"" ++ Source.deployDoc c ++
        "; `libraries` maps library name to address.\"\"\"")
      (some (.doc (Source.deployDoc c ++ "; `libraries` maps library name to address."))) :=
  lineSays_deployDoc c (Text.literal_append rfl) (Text.literal Unescaped (by decide))

include h

theorem lineSays_deploy {rest : Text} (hrest : Plain rest) :
    LineSays ("    def deploy(cls" ++ Source.params c.inputs ++ rest)
      (some (.head "def" "deploy")) := by
  rw [List.append_assoc]
  exact lineSays_start _ (by decide) (Text.plain_append.mpr ⟨plain_params h, hrest⟩) fun _ => rfl

theorem lineSays_completeHead :
    LineSays ("    def deploy(cls" ++ Source.params c.inputs ++ ", **overrides: Any) -> Deployer:")
      (some (.head "def" "deploy")) :=
  lineSays_deploy h (Text.literal Plain (by decide))

theorem lineSays_linkedHead :
    LineSays ("    def deploy(cls" ++ Source.params c.inputs ++
        ", *, libraries: dict[str, str], **overrides: Any) -> Deployer:")
      (some (.head "def" "deploy")) :=
  lineSays_deploy h (Text.literal Plain (by decide))

/-- A call of the deployer has the arguments and the payability behind a fixed beginning. -/
theorem lineSays_deployer (opening : Text)
    (hopening : Begins opening fun tokens => some (.returned "Deployer" (literals tokens))) :
    LineSays (opening ++ Source.arguments c.inputs ++ "], payable=" ++ truthLiteral c.payable ++
      ", **overrides)") (some (.returned "Deployer" [])) := by
  have hpayable : Plain "], payable=" := by decide
  have hend : Plain ", **overrides)" := by decide
  have hclosing : Plain ("], payable=" ++ truthLiteral c.payable ++ ", **overrides)") := by
    simp only [Text.plain_append]
    exact ⟨⟨hpayable, plain_truth c.payable⟩, hend⟩
  have hline := lineSays_returned opening "Deployer" hopening
    (readsAs_plain (plain_arguments h)) hclosing (List.cons_ne_nil _ _)
  rw [literals_codes] at hline
  simpa only [List.append_assoc] using hline

theorem says_deploy : Says (Source.deploy c) (Outline.member (.deploy c)) := by
  have hclassmethod : LineSays "    @classmethod" none := lineSays_fixed (by decide) rfl
  have hcall := lineSays_deployer h "        return Deployer(cls, BYTECODE, ["
    (.fixed (by decide) (by decide) fun _ => rfl)
  exact says_lines (.cons lineSays_blank (.cons hclassmethod (.cons (lineSays_completeHead h)
    (.cons (lineSays_completeDoc c) (.cons hcall .nil)))))

theorem says_deployLinked : Says (Source.deployLinked c) (Outline.member (.deployLinked c)) := by
  have hclassmethod : LineSays "    @classmethod" none := lineSays_fixed (by decide) rfl
  have hcall := lineSays_deployer h
    "        return Deployer(cls, link_bytecode(BYTECODE, LINK_REFERENCES, libraries), ["
    (.fixed (by decide) (by decide) fun _ => rfl)
  exact says_lines (.cons lineSays_blank (.cons hclassmethod (.cons (lineSays_linkedHead h)
    (.cons (lineSays_linkedDoc c) (.cons hcall .nil)))))

end

section

variable {m : Method}

theorem lineSays_methodDoc (m : Method) :
    LineSays (Source.methodDoc m)
      (some (.doc (m.signature ++ " [" ++ m.mutability.name ++ "]"))) := by
  have hopen : Unescaped " [" := by decide
  have hname : Unescaped m.mutability.name := by cases m.mutability <;> decide
  have hbody := ((spells_docText m.signature).append hopen.spells).append hname.spells
  have hval : ∀ c ∈ docText m.signature ++ " [" ++ m.mutability.name, 32 ≤ c.val := by
    simp only [List.forall_mem_append]
    exact ⟨⟨le_val_docText m.signature, hopen.le_val⟩, hname.le_val⟩
  have hclosing : ("]\"\"\"" : Text) = "]" ++ "\"\"\"" := rfl
  have hopening : ("        \"\"\"" : Text) = Text.spaces 8 ++ "\"\"\"" := rfl
  have hline := lineSays_docBefore 8 hopening hclosing (by decide) hbody hval
  unfold Source.methodDoc
  simpa only [List.append_assoc] using hline

def callTokens (m : Method) : Line :=
  codes "self, " ++ ([.literal m.signature] ++ (codes ", " ++ ([.literal m.selector] ++
    (codes ", [" ++ (codes (Source.arguments m.inputs) ++ codes "]")))))

theorem readsAs_callArguments (h : Worded m.inputs) :
    ReadsAs (Source.callArguments m) (callTokens m) := by
  have hself : Plain "self, " := by decide
  have hcomma : Plain ", " := by decide
  have hopen : Plain ", [" := by decide
  have hclose : Plain "]" := by decide
  have hfields : Plain (", [" ++ (Source.arguments m.inputs ++ "]")) := by
    simp only [Text.plain_append]
    exact ⟨hopen, plain_arguments h, hclose⟩
  have hsignature := (readsAs_quoted m.signature).behind hself (by decide)
  have hselector := (readsAs_quoted m.selector).behind hcomma (by decide)
  have htexts := hsignature.append hselector (List.cons_ne_nil _ _) rfl
  have hpassed := htexts.before hfields (List.cons_ne_nil _ _)
  unfold Source.callArguments callTokens
  simpa only [codes_append, List.append_assoc] using hpassed

/-- The signature and the selector are the only literals among what a method passes on. -/
theorem literals_callTokens (m : Method) : literals (callTokens m) = [m.signature, m.selector] := by
  simp only [callTokens, literals_append, literals_codes]
  rfl

theorem lineSays_method (h : IsWord m.identifier) {rest : Text} (hrest : Plain rest) :
    LineSays ("    def " ++ m.identifier ++ "(self" ++ rest) (some (.head "def" m.identifier)) := by
  have hself : Plain "(self" := by decide
  have hline := lineSays_head "    def " "def" (.fixed (by decide) (by decide) fun _ => rfl) h
    (Text.plain_append.mpr ⟨hself, hrest⟩) rfl
  simpa only [List.append_assoc] using hline

theorem lineSays_call (h : Worded m.inputs) (opening callee : Text)
    (hopening : Begins opening fun tokens => some (.returned callee (literals tokens)))
    {closing : Text} (hclosing : Plain closing) (hne : closing ≠ []) :
    LineSays (opening ++ Source.callArguments m ++ closing)
      (some (.returned callee [m.signature, m.selector])) := by
  rw [← literals_callTokens]
  exact lineSays_returned opening callee hopening (readsAs_callArguments h) hclosing hne

variable (hidentifier : IsWord m.identifier) (hinputs : Worded m.inputs)
include hidentifier hinputs

theorem lineSays_viewHead :
    LineSays ("    def " ++ m.identifier ++ "(self" ++ Source.params m.inputs ++
      ", **overrides: Any) -> ViewCall[" ++ Source.results m.outputs ++ "]:")
      (some (.head "def" m.identifier)) := by
  have hoptions : Plain ", **overrides: Any) -> ViewCall[" := Text.literal Plain (by decide)
  have hcolon : Plain "]:" := by decide
  have hrest : Plain (Source.params m.inputs ++ (", **overrides: Any) -> ViewCall[" ++
      (Source.results m.outputs ++ "]:"))) := by
    simp only [Text.plain_append]
    exact ⟨plain_params hinputs, hoptions, plain_results m.outputs, hcolon⟩
  simpa only [List.append_assoc] using lineSays_method hidentifier hrest

theorem says_viewMethod : Says (Source.viewMethod m) (Outline.member (.view m)) := by
  have hcall : LineSays ("        return ViewCall(" ++ Source.callArguments m ++ ", **overrides)")
      (some (.returned "ViewCall" [m.signature, m.selector])) :=
    lineSays_call hinputs _ _ (.fixed (by decide) (by decide) fun _ => rfl)
      (Text.literal Plain (by decide)) (by decide)
  exact says_lines (.cons lineSays_blank (.cons (lineSays_viewHead hidentifier hinputs)
    (.cons (lineSays_methodDoc m) (.cons hcall .nil))))

theorem lineSays_sendHead :
    LineSays ("    def " ++ m.identifier ++ "(self" ++ Source.params m.inputs ++
      ", **overrides: Any) -> Transaction:") (some (.head "def" m.identifier)) := by
  have hoptions : Plain ", **overrides: Any) -> Transaction:" := Text.literal Plain (by decide)
  have hrest := Text.plain_append.mpr ⟨plain_params hinputs, hoptions⟩
  simpa only [List.append_assoc] using lineSays_method hidentifier hrest

theorem says_sendMethod : Says (Source.sendMethod m) (Outline.member (.send m)) := by
  have hpayable : Plain ", payable=" := by decide
  have hend : Plain ", **overrides)" := by decide
  have hclosing : Plain (", payable=" ++ (truthLiteral m.isPayable ++ ", **overrides)")) := by
    simp only [Text.plain_append]
    exact ⟨hpayable, plain_truth m.isPayable, hend⟩
  have hcall : LineSays ("        return Transaction(" ++ Source.callArguments m ++
      ", payable=" ++ truthLiteral m.isPayable ++ ", **overrides)")
      (some (.returned "Transaction" [m.signature, m.selector])) := by
    have hline := lineSays_call hinputs "        return Transaction(" "Transaction"
      (.fixed (by decide) (by decide) fun _ => rfl) hclosing (List.cons_ne_nil _ _)
    simpa only [List.append_assoc] using hline
  exact says_lines (.cons lineSays_blank (.cons (lineSays_sendHead hidentifier hinputs)
    (.cons (lineSays_methodDoc m) (.cons hcall .nil))))

end

theorem lineSays_eventsHead :
    LineSays "    def events(self, event: type, receipt_or_logs: Any) -> List[Any]:"
      (some (.head "def" "events")) := lineSays_fixed (by decide) rfl

theorem lineSays_eventsDoc :
    LineSays ("        \"\"\"Decode every log of `event` (an ``Events.*`` record) in a " ++
        "receipt or log list.\"\"\"")
      (some (.doc
        "Decode every log of `event` (an ``Events.*`` record) in a receipt or log list.")) := by
  refine lineSays_docFixed 8 ?_ (by decide)
  simp (disch := rfl) only [Text.ofString_eq]
  rfl

theorem says_eventsHelper : Says Source.eventsHelper (Outline.member .events) := by
  have hcall : LineSays "        return EventLog(self, event).decode(receipt_or_logs)"
      (some (.returned "EventLog" [])) := lineSays_fixed (by decide) rfl
  exact says_lines (.cons lineSays_blank (.cons lineSays_eventsHead (.cons lineSays_eventsDoc
    (.cons hcall .nil))))

theorem lineSays_errorsHead : LineSays "    def revert_error(self, data: bytes) -> RevertError:"
    (some (.head "def" "revert_error")) := lineSays_fixed (by decide) rfl

theorem lineSays_errorsDoc :
    LineSays "        \"\"\"Match revert data against the contract's custom errors.\"\"\""
      (some (.doc "Match revert data against the contract's custom errors.")) := by
  refine lineSays_docFixed 8 ?_ (by decide)
  simp (disch := rfl) only [Text.ofString_eq]
  rfl

theorem says_errorsHelper : Says Source.errorsHelper (Outline.member .errors) := by
  have hcall : LineSays "        return RevertError(data, ERRORS)"
      (some (.returned "RevertError" [])) := lineSays_fixed (by decide) rfl
  exact says_lines (.cons lineSays_blank (.cons lineSays_errorsHead (.cons lineSays_errorsDoc
    (.cons hcall .nil))))

/-- A plain text may stand between double quotes as it is. -/
theorem denotes_plain {t : Text} (h : Plain t) :
    Denotes readAtom ("\"" ++ t ++ "\"") (.text t) := by
  have hunescaped := unescaped_of_plain h
  have hhead : t.head? ≠ some Text.doubleQuote := by
    intro heq
    have hquote := h _ (List.mem_of_mem_head? heq)
    exact absurd hquote (by decide)
  have hreads := readsAs_short rfl hhead hunescaped.spells hunescaped.le_val
  exact ⟨.literal t, [], hreads, by simp [notFirst], fun _ _ => rfl⟩

section

variable {client : Client} (h : client.Legible)
include h

theorem Legible.says_member :
    ∀ member ∈ Source.members client, Says member.text (Outline.member member) := by
  apply Source.forall_members
  case hdeploy => exact says_deploy h.inputs
  case hlinked => exact says_deployLinked h.inputs
  case hview => exact fun m hm => says_viewMethod (h.methods m hm).1 (h.methods m hm).2
  case hsend => exact fun m hm => says_sendMethod (h.methods m hm).1 (h.methods m hm).2
  case hevents => exact says_eventsHelper
  case herrors => exact says_errorsHelper

theorem Legible.says_exports : Says (Source.exports client) (Outline.exports client) := by
  have hidentifier := Text.plain_of_isIdentifierPart h.identifier
  have hnames : ∀ name ∈ [client.identifier, "Events", "Errors"], Plain name := by
    simp only [List.forall_mem_cons, List.not_mem_nil, false_implies, implies_true, and_true]
    exact ⟨hidentifier, by decide, by decide⟩
  have hlist : Denotes readSimple
      ("[" ++ Text.join ", " ([client.identifier, "Events", "Errors"].map fun name =>
        "\"" ++ name ++ "\"") ++ "]")
      (.list ([client.identifier, "Events", "Errors"].map .text)) :=
    denotes_list (List.cons_ne_nil _ _) fun name hname => denotes_plain (hnames name hname)
  have hline := lineSays_assigned "__all__ = " "__all__"
    (.fixed (by decide) (by decide) fun _ => rfl) hlist.value
  have hopening : ("__all__ = [\"" : Text) = "__all__ = " ++ ("[" ++ "\"") := rfl
  have hclosing : ("\", \"Events\", \"Errors\"]" : Text) =
      "\"" ++ (", " ++ ("\"" ++ ("Events" ++ ("\"" ++ (", " ++
        ("\"" ++ ("Errors" ++ ("\"" ++ "]")))))))) := rfl
  have hall : LineSays ("__all__ = [\"" ++ client.identifier ++ "\", \"Events\", \"Errors\"]")
      (some (.assigned "__all__"
        (.list [.text client.identifier, .text "Events", .text "Errors"]))) := by
    rw [hopening, hclosing]
    simpa only [List.map_cons, List.map_nil, Text.join, List.append_assoc] using hline
  exact says_lines (.cons lineSays_blank (.cons lineSays_blank (.cons hall .nil)))

/-- The source of a module says its outline. -/
theorem Legible.says_source {fingerprint : Text} (hfingerprint : ∀ c ∈ fingerprint, 32 ≤ c.val) :
    Says (Source.heading client fingerprint ++ Source.eventClass client ++
      Source.errorClass client ++ Source.contractClass client fingerprint ++
      (Source.members client).flatMap Source.Member.text ++ Source.exports client)
      (client.outline fingerprint) := by
  have hmembers : Says ((Source.members client).flatMap Source.Member.text)
      ((Source.members client).flatMap Outline.member) := says_flatMap h.says_member
  exact ((((((h.says_heading hfingerprint).append h.says_eventClass).append
    h.says_errorClass).append (h.says_contractClass fingerprint)).append hmembers).append
    h.says_exports)

end

end AbiBindings.Client
