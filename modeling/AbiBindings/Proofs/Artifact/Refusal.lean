import AbiBindings.Proofs.AbiType.Refusal
import AbiBindings.Proofs.Artifact.Loading
import AbiBindings.Proofs.Artifact.Shape

/-!
Why an artifact is refused. The checks of the document and of each entry come before anything is
read from them, and each part that is read later is promised by a check: a value that loads no
artifact has a fault in its structure or a type that is spelled in a way that is not supported.
That a promised part is missing cannot happen, and neither can the faults that components of the
wrong shape would have. The one other way to fail is that a refusal would have to show an integer
of too many digits.
-/

namespace AbiBindings

open AbiType (IsComponentText DigitRunsFit NumbersFit WellShaped componentsOf)
open Outcome

/-- The fault is found in the document: in its structure, for a reason that can be put into words,
or in the spelling of a type. -/
inductive Fault.IsRefusal : Fault → Prop
  | structural {path : Text} {reason : ArtifactFault} : reason.message?.isSome = true →
      IsRefusal (.invalidArtifact path reason)
  | type {type : Text} {path : Option Text} {reason : TypeFault} : reason.IsSpelling →
      IsRefusal (.unsupportedType type path reason)

namespace Artifact

section

variable {α β : Type}

/-- If the computation fails, it refuses the document or cannot show what it refuses. -/
def OnlyRefuses (x : Except Fault α) : Prop :=
  FailsOnly (fun fault => fault.IsRefusal ∨ fault = .integerUnwritable) x

theorem onlyRefuses_ok (a : α) : OnlyRefuses (.ok a) := failsOnly_ok a

theorem onlyRefuses_structural (path : Text) {reason : ArtifactFault}
    (h : reason.message?.isSome = true) :
    OnlyRefuses (.error (.invalidArtifact path reason) : Except Fault α) :=
  failsOnly_error (.inl (.structural h))

theorem OnlyRefuses.bind {x : Except Fault α} {f : α → Except Fault β} (hx : OnlyRefuses x)
    (hf : ∀ a, x = .ok a → OnlyRefuses (f a)) : OnlyRefuses (x >>= f) :=
  FailsOnly.bind hx hf

theorem onlyRefuses_forM {f : α → Except Fault Unit} {as : List α}
    (hf : ∀ a ∈ as, OnlyRefuses (f a)) : OnlyRefuses (as.forM f) :=
  failsOnly_forM hf

end

theorem onlyRefuses_check (shape : Shape) (value : Json) (place : Location) :
    OnlyRefuses (check shape value place) := by
  intro fault h
  rcases check_eq_error h with rfl | ⟨path, breach, rfl, hwords⟩
  · exact .inr rfl
  · exact .inl (.structural hwords)

theorem onlyRefuses_checkText (value : Json) (place : Location) :
    OnlyRefuses (checkText value place) := by
  rw [checkText]
  split
  · exact onlyRefuses_ok ()
  · exact onlyRefuses_structural _ rfl

theorem onlyRefuses_checkTexts (document : Json) : OnlyRefuses (checkTexts document) := by
  refine onlyRefuses_forM fun key _ => ?_
  split
  · exact onlyRefuses_ok ()
  · exact onlyRefuses_checkText _ _

theorem onlyRefuses_checkSole (entries : List Entry) (kind : EntryKind) :
    OnlyRefuses (checkSole entries kind) := by
  rw [checkSole]
  split
  · exact onlyRefuses_structural _ rfl
  · exact onlyRefuses_ok ()

section

variable {value : Json} {key : Text}

theorem exists_optionalText
    (h : ∀ part, value.field? key = some part → ∃ text, part = .str text) :
    ∃ text, optionalText value key = .ok text := by
  cases hfield : value.field? key with
  | none => exact ⟨none, optionalText_eq_ok.mpr (.absent hfield)⟩
  | some part =>
    obtain ⟨text, rfl⟩ := h part hfield
    exact ⟨some text, optionalText_eq_ok.mpr (.given hfield)⟩

theorem exists_listPart {P : Json → Prop} (h : ∀ part, value.field? key = some part →
      ∃ items, part = .arr items ∧ ∀ item ∈ items, P item) :
    ∃ items, listPart value key = .ok items ∧ ∀ item ∈ items, P item := by
  cases hfield : value.field? key with
  | none => exact ⟨[], listPart_eq_ok.mpr (.absent hfield), by simp⟩
  | some part =>
    obtain ⟨items, rfl, hitems⟩ := h part hfield
    exact ⟨items, listPart_eq_ok.mpr (.given hfield), hitems⟩

end

/-- Components of parameters that fit are well shaped at every depth. -/
theorem wellShaped_of_fits (value : Json) :
    (Fits value (Shape.listOf .param) → WellShaped value) ∧
      ∀ fields, value = .obj fields → Fits value (Shape.ofItem .param) →
        WellShaped (componentsOf fields) := by
  -- on the way down a list has parameters and a parameter has a list, so each needs the other
  induction value using Json.induct with
  | arr items ih =>
    refine ⟨fun hfits => ?_, fun fields h => by cases h⟩
    obtain ⟨items', heq, hitems⟩ := fits_listOf.mp hfits
    obtain rfl := Json.arr.inj heq
    refine .list ?_ ?_ ?_
    · intro item hmem
      have hitem := isParamItem_of_fits (hitems item hmem)
      obtain ⟨fields, rfl⟩ := hitem.isObject
      obtain ⟨text, htext⟩ := hitem.type
      exact ⟨fields, text, rfl, htext⟩
    · intro fields value hmem hvalue
      exact (isParamItem_of_fits (hitems _ hmem)).name value hvalue
    · intro fields hmem
      exact (ih _ hmem).2 fields rfl (hitems _ hmem)
  | obj fields ih =>
    constructor
    · intro hfits
      obtain ⟨items, heq, -⟩ := fits_listOf.mp hfits
      cases heq
    · intro fields' heq hfits
      obtain rfl := Json.obj.inj heq
      rw [componentsOf]
      cases hcomponents : Json.lookup fields "components" with
      | none => exact .absent
      | some value =>
        have hlist : Fits value (Shape.listOf .param) :=
          hfits.property (by simp [Shape.paramRules]) hcomponents
        exact (ih _ (Json.mem_of_lookup hcomponents)).1 hlist
  | _ =>
    refine ⟨fun hfits => ?_, fun fields h => by cases h⟩
    obtain ⟨items, heq, -⟩ := fits_listOf.mp hfits
    cases heq

section

variable {item : Json}

/-- The numbers in the type of a parameter and in its components fit. -/
def ParamFits (item : Json) : Prop :=
  ∀ fields text, item = .obj fields → Json.lookup fields "type" = some (.str text) →
    NumbersFit text (componentsOf fields)

theorem paramFits_of_mem {items : List Json}
    (hfit : ∀ text, IsComponentText text (.arr items) → DigitRunsFit text) :
    ∀ item ∈ items, ParamFits item := by
  rintro item hmem fields text rfl htext
  exact ⟨hfit text (.here hmem htext), fun part hpart => hfit part (.inner hmem hpart)⟩

theorem onlyRefuses_loadParams {ofEvent : Bool} {place : Location} {index : Nat}
    {items : List Json} (hitems : ∀ item ∈ items, Fits item (Shape.ofItem .param))
    (hfit : ∀ item ∈ items, ParamFits item) :
    OnlyRefuses (loadParams ofEvent place index items) := by
  induction items generalizing index with
  | nil => exact onlyRefuses_ok []
  | cons item rest ih =>
    rw [List.forall_mem_cons] at hitems hfit
    have hparam := isParamItem_of_fits hitems.1
    obtain ⟨fields, rfl⟩ := hparam.isObject
    obtain ⟨text, htext⟩ := hparam.type
    obtain ⟨name, hname⟩ := exists_optionalText hparam.name
    obtain ⟨internal, hinternal⟩ := exists_optionalText hparam.internalType
    have hshaped : WellShaped (componentsOf fields) :=
      (wellShaped_of_fits _).2 fields rfl hitems.1
    rw [loadParams, hname, part_eq_ok.mpr htext, hinternal, ok_bind, ok_bind]
    refine OnlyRefuses.bind ?_ fun type _ => ?_
    · intro fault h
      obtain ⟨type, path, reason, rfl, hreason⟩ :=
        AbiType.isSpelling_of_parse (hfit.1 fields text rfl htext) hshaped h
      exact .inl (.type hreason)
    · exact (ih hitems.2 hfit.2).bind fun others _ => onlyRefuses_ok _

/-- What stands under a key of an entry is a list of parameters with numbers that fit, or absent. -/
structure ListsParams (item : Json) (key : Text) : Prop where
  list : ∀ value, item.field? key = some value →
    ∃ items, value = .arr items ∧ ∀ param ∈ items, Fits param (Shape.ofItem .param)
  fit : ∀ value, item.field? key = some value →
    ∀ text, IsComponentText text value → DigitRunsFit text

theorem onlyRefuses_paramsPart {ofEvent : Bool} {place : Location} {key : Text}
    (h : ListsParams item key) : OnlyRefuses (paramsPart ofEvent item place key) := by
  have hlist : ∀ value, item.field? key = some value → ∃ items, value = .arr items ∧
      ∀ param ∈ items, Fits param (Shape.ofItem .param) ∧ ParamFits param := by
    intro value hvalue
    obtain ⟨items, rfl, hitems⟩ := h.list value hvalue
    have hfit := paramFits_of_mem (h.fit _ hvalue)
    exact ⟨items, rfl, fun param hmem => ⟨hitems param hmem, hfit param hmem⟩⟩
  obtain ⟨items, hitems, hparams⟩ := exists_listPart hlist
  rw [paramsPart, hitems, ok_bind]
  exact onlyRefuses_loadParams (fun param hmem => (hparams param hmem).1)
    fun param hmem => (hparams param hmem).2

/-- The words that the shape of an entry allows all stand for a mutability. -/
theorem onlyRefuses_mutabilityPart {kind : Option Kind} {rules : List (Rule ItemShape)}
    (hfits : Fits item (.mk kind rules)) (words : List Text)
    (hrule : .property "stateMutability" (Shape.word words) ∈ rules)
    (hwords : ∀ word ∈ words, (Mutability.ofName? word).isSome) :
    OnlyRefuses (mutabilityPart item) := by
  rw [mutabilityPart]
  cases hfield : item.field? "stateMutability" with
  | none =>
    dsimp only
    split
    · exact onlyRefuses_ok _
    · split
      · exact onlyRefuses_ok _
      · exact onlyRefuses_ok _
  | some value =>
    obtain ⟨word, hword, rfl⟩ := fits_word.mp (hfits.property hrule hfield)
    obtain ⟨mutability, hmutability⟩ := Option.isSome_iff_exists.mp (hwords word hword)
    simp only [hmutability]
    exact onlyRefuses_ok mutability

def EntryFits (item : Json) : Prop :=
  ∀ (key : Text) params text, key = "inputs" ∨ key = "outputs" → item.field? key = some params →
    IsComponentText text params → DigitRunsFit text

/-- A list of parameters that the shape of an entry asks for. -/
theorem listsParams_of_fits {kind : Option Kind} {rules : List (Rule ItemShape)}
    (hfits : Fits item (.mk kind rules)) (hfit : EntryFits item) (key : Text)
    (hkey : key = "inputs" ∨ key = "outputs")
    (hrule : .property key (Shape.listOf .param) ∈ rules ∨
      .property key (Shape.listOf .eventParam) ∈ rules) : ListsParams item key where
  list _ hvalue := hfits.paramList hrule hvalue
  fit value hvalue text htext := hfit key value text hkey hvalue htext

/-- The name of an entry whose shape asks for one. -/
theorem exists_textPart {rules : List (Rule ItemShape)}
    (hfits : Fits item (.mk (some .object) rules)) (key : Text) (hrequired : .required key ∈ rules)
    (hrule : .property key Shape.name ∈ rules) : ∃ name, textPart item key = .ok name := by
  obtain ⟨value, hvalue⟩ := hfits.required key hrequired
  obtain ⟨name, rfl, -⟩ := fits_name.mp (hfits.property hrule hvalue)
  exact ⟨name, textPart_eq_ok.mpr hvalue⟩

/-- The shape of an entry of a kind promises every part that is read from it. -/
theorem onlyRefuses_loadChecked {kind : EntryKind} {index : Nat}
    (hfits : Fits item (Shape.ofEntry kind)) (hfit : EntryFits item) :
    OnlyRefuses (loadChecked kind item index) := by
  cases kind with
  | function =>
    obtain ⟨name, hname⟩ := exists_textPart hfits "name" (by simp) (by simp)
    have hinputs := listsParams_of_fits hfits hfit "inputs" (by simp) (by simp)
    have houtputs := listsParams_of_fits hfits hfit "outputs" (by simp) (by simp)
    have hmutability := onlyRefuses_mutabilityPart hfits ["pure", "view", "nonpayable", "payable"]
      (by simp) (by decide)
    rw [loadChecked, hname, ok_bind]
    refine (onlyRefuses_paramsPart hinputs).bind fun inputs _ => ?_
    refine (onlyRefuses_paramsPart houtputs).bind fun outputs _ => ?_
    exact hmutability.bind fun mutability _ => onlyRefuses_ok _
  | constructor =>
    have hinputs := listsParams_of_fits hfits hfit "inputs" (by simp) (by simp)
    have hmutability := onlyRefuses_mutabilityPart hfits Shape.receivingWords (by simp) (by decide)
    refine (onlyRefuses_paramsPart hinputs).bind fun inputs _ => ?_
    exact hmutability.bind fun mutability _ => onlyRefuses_ok _
  | event =>
    obtain ⟨name, hname⟩ := exists_textPart hfits "name" (by simp) (by simp)
    have hinputs := listsParams_of_fits hfits hfit "inputs" (by simp) (by simp)
    rw [loadChecked, hname, ok_bind]
    exact (onlyRefuses_paramsPart hinputs).bind fun inputs _ => onlyRefuses_ok _
  | error =>
    obtain ⟨name, hname⟩ := exists_textPart hfits "name" (by simp) (by simp)
    have hinputs := listsParams_of_fits hfits hfit "inputs" (by simp) (by simp)
    rw [loadChecked, hname, ok_bind]
    exact (onlyRefuses_paramsPart hinputs).bind fun inputs _ => onlyRefuses_ok _
  | fallback =>
    have hmutability := onlyRefuses_mutabilityPart hfits Shape.receivingWords (by simp) (by decide)
    exact hmutability.bind fun mutability _ => onlyRefuses_ok _
  | receive => exact onlyRefuses_ok _

theorem onlyRefuses_loadEntry {index : Nat} (hfit : EntryFits item) :
    OnlyRefuses (loadEntry item index) := by
  rw [loadEntry]
  cases kindOf item with
  | error word =>
    dsimp only
    split
    · next hshown =>
      refine onlyRefuses_structural _ ?_
      rw [ArtifactFault.message?, Option.isSome_map, hshown]
    · exact failsOnly_error (.inr rfl)
  | ok kind =>
    refine (onlyRefuses_check _ _ _).bind fun _ hcheck => ?_
    exact onlyRefuses_loadChecked (check_eq_ok.mp hcheck) hfit

end

theorem onlyRefuses_loadEntries {index : Nat} {items : List Json}
    (hfit : ∀ item ∈ items, EntryFits item) : OnlyRefuses (loadEntries index items) := by
  induction items generalizing index with
  | nil => exact onlyRefuses_ok []
  | cons item rest ih =>
    rw [List.forall_mem_cons] at hfit
    refine (onlyRefuses_loadEntry hfit.1).bind fun entry _ => ?_
    exact (ih hfit.2).bind fun others _ => onlyRefuses_ok _

section

variable {document : Json}

theorem onlyRefuses_contractName (h : Fits document Shape.document) (name : Option Text) :
    OnlyRefuses (contractName document name) := by
  have hname : ∀ value, document.field? "contractName" = some value →
      ∃ text, value = .str text := by
    intro value hvalue
    obtain ⟨text, rfl, -⟩ := fits_name.mp (h.property (by simp) hvalue)
    exact ⟨text, rfl⟩
  obtain ⟨own, hown⟩ := exists_optionalText hname
  rw [contractName, hown, ok_bind]
  extract_lets chosen
  cases chosen with
  | none => exact onlyRefuses_structural _ rfl
  | some text =>
    dsimp only
    split
    · exact onlyRefuses_structural _ rfl
    · exact (onlyRefuses_checkText _ _).bind fun _ _ => onlyRefuses_ok _

theorem exists_abiPart (h : Fits document Shape.document) :
    ∃ items, document.field? "abi" = some (.arr items) ∧ abiPart document = .ok items := by
  obtain ⟨value, hvalue⟩ := h.required "abi" (by simp)
  have hlist : Fits value (Shape.listOf .object) := h.property (by simp) hvalue
  obtain ⟨items, rfl, -⟩ := fits_listOf.mp hlist
  refine ⟨items, hvalue, ?_⟩
  rw [abiPart, hvalue]

theorem exists_bytecodeText (h : Fits document Shape.document) :
    ∃ text, bytecodeText document = .ok text := by
  rw [bytecodeText]
  cases hfield : document.field? "bytecode" with
  | none => exact ⟨[], rfl⟩
  | some value =>
    have hvalue : Fits value
        (.mk none [.anyOf (.mk (some .null) [] :: Shape.textOrField "object")]) :=
      h.property (by simp) hfield
    obtain ⟨shape, hshape, hfits⟩ := fits_anyOf.mp hvalue
    rcases List.mem_cons.mp hshape with rfl | hshape
    · cases value with
      | null => exact ⟨[], rfl⟩
      | _ => exact absurd ((Json.follows_mk.mp hfits).1 .null rfl) Bool.false_ne_true
    · rcases exists_of_textOrField hshape hfits with ⟨text, rfl⟩ | ⟨fields, text, rfl, htext⟩
      · exact ⟨text, rfl⟩
      · exact ⟨text, textPart_eq_ok.mpr htext⟩

theorem onlyRefuses_loadBytecode (h : Fits document Shape.document) :
    OnlyRefuses (loadBytecode document) := by
  obtain ⟨text, htext⟩ := exists_bytecodeText h
  rw [loadBytecode, htext, ok_bind]
  split
  · exact onlyRefuses_ok none
  · intro fault hfault
    obtain ⟨reason, -, rfl⟩ := mapError_eq_error.mp hfault
    exact .inl (.structural rfl)

/-- What the shape of a document says about a network. -/
def IsNetworkValue (value : Json) : Prop :=
  ∃ shape ∈ Shape.textOrField "address", Fits value shape

theorem exists_networksPart (h : Fits document Shape.document) :
    ∃ fields, networksPart document = .ok fields ∧
      ∀ field ∈ fields, IsNetworkValue field.2 := by
  rw [networksPart]
  cases hfield : document.field? "networks" with
  | none => exact ⟨[], rfl, by simp⟩
  | some value =>
    have hvalue : Fits value
        (.mk (some .object) [.values (.mk none [.anyOf (Shape.textOrField "address")])]) :=
      h.property (by simp) hfield
    obtain ⟨fields, rfl⟩ := hvalue.isObject
    have hvalues := (Json.follows_mk.mp hvalue).2 _ List.mem_cons_self fields rfl
    exact ⟨fields, rfl, fun field hmem => fits_anyOf.mp (hvalues field hmem)⟩

theorem onlyRefuses_loadDeployments {fields : List (Text × Json)}
    (hfields : ∀ field ∈ fields, IsNetworkValue field.2) :
    OnlyRefuses (loadDeployments fields) := by
  induction fields with
  | nil => exact onlyRefuses_ok []
  | cons field rest ih =>
    obtain ⟨network, value⟩ := field
    rw [List.forall_mem_cons] at hfields
    obtain ⟨⟨shape, hshape, hfits⟩, hrest⟩ := hfields
    have haddress : ∃ address, addressPart value = .ok address := by
      rcases exists_of_textOrField hshape hfits with ⟨text, rfl⟩ | ⟨fields, text, rfl, htext⟩
      · exact ⟨text, rfl⟩
      · exact ⟨text, textPart_eq_ok.mpr htext⟩
    obtain ⟨address, haddress⟩ := haddress
    rw [loadDeployments, haddress, ok_bind]
    split
    · exact (ih hrest).bind fun others _ => onlyRefuses_ok _
    · exact onlyRefuses_structural _ rfl

end

/-- A text is the type of a parameter in the value to load: of one in a list of inputs or outputs,
or at any depth of one among the components of another. -/
inductive IsTypeText (text : Text) (raw : Json) : Prop
  | listed {document entry params : Json} {entries : List Json} {key : Text} :
      documentOf raw = .ok document → document.field? "abi" = some (.arr entries) →
      entry ∈ entries → key = "inputs" ∨ key = "outputs" → entry.field? key = some params →
      IsComponentText text params → IsTypeText text raw

theorem fits_of_draft {raw : Json} {name : Option Text} {draft : Draft}
    (h : Draft.ofJson raw name = .ok draft) : Fits draft.document Shape.document := by
  simp only [Draft.ofJson, bind_eq_ok, pure_eq_ok, Except.ok.injEq] at h
  obtain ⟨document, -, ⟨⟩, hcheck, ⟨⟩, -, title, -, items, -, entries, -, ⟨⟩, -, code, -, rfl⟩ := h
  exact check_eq_ok.mp hcheck

/-- The numbers in the types fit, so that loading gives an artifact, refuses the value, or cannot
show what it refuses. -/
theorem onlyRefuses_load {raw : Json} (hfit : ∀ text, IsTypeText text raw → DigitRunsFit text)
    (name : Option Text) : OnlyRefuses (load raw name) := by
  have hdocument : OnlyRefuses (documentOf raw) := by
    cases raw with
    | arr items => exact onlyRefuses_ok _
    | obj fields => exact onlyRefuses_ok _
    | _ => exact onlyRefuses_structural _ rfl
  have hdraft : OnlyRefuses (Draft.ofJson raw name) := by
    refine hdocument.bind fun document heq => ?_
    refine (onlyRefuses_check _ _ _).bind fun _ hcheck => ?_
    have hfits := check_eq_ok.mp hcheck
    refine (onlyRefuses_checkTexts document).bind fun _ _ => ?_
    refine (onlyRefuses_contractName hfits name).bind fun title _ => ?_
    obtain ⟨entries, habi, hentries⟩ := exists_abiPart hfits
    rw [hentries, ok_bind]
    have hentryFits : ∀ entry ∈ entries, EntryFits entry := by
      intro entry hmem key params text hkey hparams htext
      exact hfit text (.listed heq habi hmem hkey hparams htext)
    refine (onlyRefuses_loadEntries hentryFits).bind fun loaded _ => ?_
    refine (onlyRefuses_forM fun kind _ => onlyRefuses_checkSole loaded kind).bind fun _ _ => ?_
    exact (onlyRefuses_loadBytecode hfits).bind fun code _ => onlyRefuses_ok _
  refine hdraft.bind fun draft heq => ?_
  obtain ⟨fields, hfields, hvalues⟩ := exists_networksPart (fits_of_draft heq)
  rw [hfields, ok_bind]
  exact (onlyRefuses_loadDeployments hvalues).bind fun deployments _ => onlyRefuses_ok _

end Artifact

end AbiBindings
