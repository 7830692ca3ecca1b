import AbiBindings.Proofs.AbiType.Blame
import AbiBindings.Proofs.Artifact.Shape
import AbiBindings.Proofs.Artifact.Sound

/-!
Where loading stops. The document is checked first, then the entries come one after the other, each
checked before its parameters are read, and its inputs before its results. So a fault of a shape
comes from the check of the document or of the first entry that does not load, and a type that is
not supported from the first parameter of that entry that cannot be read. An integer that a refusal
cannot show is in what one of these checks reports, or stands for the kind of that entry. All other
faults are plain ones.
-/

namespace AbiBindings

open Outcome

/-- The fault is neither a broken shape, nor a type that is not supported, nor an integer that
cannot be shown. -/
def Fault.IsPlain : Fault → Prop
  | .unsupportedType _ _ _ => False
  | .invalidArtifact _ (.breach _) => False
  | .integerUnwritable => False
  | _ => True

namespace Artifact

section

variable (value document : Json) (key : Text)

theorem plain_part : FailsOnly Fault.IsPlain (part value key) := by
  rw [part]
  split
  · exact failsOnly_ok _
  · exact failsOnly_error trivial

theorem plain_textPart : FailsOnly Fault.IsPlain (textPart value key) := by
  refine (plain_part value key).bind fun text _ => ?_
  split
  · exact failsOnly_ok _
  · exact failsOnly_error trivial

theorem plain_optionalText : FailsOnly Fault.IsPlain (optionalText value key) := by
  rw [optionalText]
  split
  · exact failsOnly_ok _
  · exact failsOnly_ok _
  · exact failsOnly_error trivial

theorem plain_listPart : FailsOnly Fault.IsPlain (listPart value key) := by
  rw [listPart]
  split
  · exact failsOnly_ok _
  · exact failsOnly_ok _
  · exact failsOnly_error trivial

theorem plain_mutabilityPart : FailsOnly Fault.IsPlain (mutabilityPart value) := by
  rw [mutabilityPart]
  split
  · split
    · exact failsOnly_ok _
    · exact failsOnly_error trivial
  · exact failsOnly_error trivial
  · split
    · exact failsOnly_ok _
    · split
      · exact failsOnly_ok _
      · exact failsOnly_ok _

theorem plain_checkText (place : Location) : FailsOnly Fault.IsPlain (checkText value place) := by
  rw [checkText]
  split
  · exact failsOnly_ok _
  · exact failsOnly_error trivial

theorem plain_documentOf (raw : Json) : FailsOnly Fault.IsPlain (documentOf raw) := by
  cases raw with
  | arr items => exact failsOnly_ok _
  | obj fields => exact failsOnly_ok _
  | _ => exact failsOnly_error trivial

theorem plain_checkTexts : FailsOnly Fault.IsPlain (checkTexts document) := by
  refine failsOnly_forM fun key _ => ?_
  split
  · exact failsOnly_ok _
  · exact plain_checkText _ _

theorem plain_contractName (name : Option Text) :
    FailsOnly Fault.IsPlain (contractName document name) := by
  refine (plain_optionalText document "contractName").bind fun own _ => ?_
  extract_lets chosen
  cases chosen with
  | none => exact failsOnly_error trivial
  | some text =>
    dsimp only
    split
    · exact failsOnly_error trivial
    · exact (plain_checkText _ _).bind fun _ _ => failsOnly_ok _

theorem plain_abiPart : FailsOnly Fault.IsPlain (abiPart document) := by
  rw [abiPart]
  split
  · exact failsOnly_ok _
  · exact failsOnly_error trivial

theorem plain_checkSole (entries : List Entry) (kind : EntryKind) :
    FailsOnly Fault.IsPlain (checkSole entries kind) := by
  rw [checkSole]
  split
  · exact failsOnly_error trivial
  · exact failsOnly_ok _

theorem plain_loadBytecode : FailsOnly Fault.IsPlain (loadBytecode document) := by
  have htext : FailsOnly Fault.IsPlain (bytecodeText document) := by
    rw [bytecodeText]
    split
    · exact failsOnly_ok _
    · exact failsOnly_ok _
    · exact failsOnly_ok _
    · exact plain_textPart _ _
  refine htext.bind fun text _ => ?_
  split
  · exact failsOnly_ok _
  · intro fault h
    obtain ⟨reason, -, rfl⟩ := mapError_eq_error.mp h
    trivial

theorem plain_networksPart : FailsOnly Fault.IsPlain (networksPart document) := by
  rw [networksPart]
  split
  · exact failsOnly_ok _
  · exact failsOnly_ok _
  · exact failsOnly_error trivial

theorem plain_loadDeployments (fields : List (Text × Json)) :
    FailsOnly Fault.IsPlain (loadDeployments fields) := by
  induction fields with
  | nil => exact failsOnly_ok _
  | cons field rest ih =>
    obtain ⟨network, value⟩ := field
    have haddress : FailsOnly Fault.IsPlain (addressPart value) := by
      unfold addressPart
      split
      · exact failsOnly_ok _
      · exact plain_textPart _ _
    refine haddress.bind fun address _ => ?_
    split
    · exact ih.bind fun others _ => failsOnly_ok _
    · exact failsOnly_error trivial

end

/-- The document passes the check of its shape, and this is its ABI list. -/
structure Opens (raw : Json) (document : Json) (items : List Json) : Prop where
  stands : documentOf raw = .ok document
  fits : Fits document Shape.document
  abi : document.field? "abi" = some (.arr items)

/-- Loading comes to the entries of the ABI list: everything before them is in order. -/
structure ReachesEntries (raw : Json) (name : Option Text) (document : Json) (items : List Json) :
    Prop extends Opens raw document items where
  texts : checkTexts document = .ok ()
  named : ∃ title, contractName document name = .ok title

/-- Loading stops at the check of the document or at an entry, or else plainly. -/
theorem load_eq_error {raw : Json} {name : Option Text} {fault : Fault}
    (h : load raw name = .error fault) :
    fault.IsPlain ∨
      (∃ document, documentOf raw = .ok document ∧
        check Shape.document document [] = .error fault) ∨
      ∃ document items, ReachesEntries raw name document items ∧
        loadEntries 0 items = .error fault := by
  rcases bind_eq_error.mp h with hdraft | ⟨draft, -, h⟩
  · rcases bind_eq_error.mp hdraft with hdocument | ⟨document, hdocument, h⟩
    · exact .inl (plain_documentOf raw fault hdocument)
    rcases bind_eq_error.mp h with hcheck | ⟨⟨⟩, hcheck, h⟩
    · exact .inr (.inl ⟨document, hdocument, hcheck⟩)
    rcases bind_eq_error.mp h with hfailed | ⟨⟨⟩, htexts, h⟩
    · exact .inl (plain_checkTexts document fault hfailed)
    rcases bind_eq_error.mp h with hname | ⟨title, htitle, h⟩
    · exact .inl (plain_contractName document name fault hname)
    rcases bind_eq_error.mp h with habi | ⟨items, habi, h⟩
    · exact .inl (plain_abiPart document fault habi)
    rcases bind_eq_error.mp h with hentries | ⟨entries, -, h⟩
    · have hopens : Opens raw document items :=
        ⟨hdocument, check_eq_ok.mp hcheck, abiPart_ok habi⟩
      exact .inr (.inr ⟨document, items, ⟨hopens, htexts, title, htitle⟩, hentries⟩)
    rcases bind_eq_error.mp h with hsole | ⟨⟨⟩, -, h⟩
    · exact .inl (failsOnly_forM (fun kind _ => plain_checkSole entries kind) fault hsole)
    rcases bind_eq_error.mp h with hbytecode | ⟨bytecode, -, hdone⟩
    · exact .inl (plain_loadBytecode document fault hbytecode)
    · cases hdone
  · rcases bind_eq_error.mp h with hnetworks | ⟨fields, -, h⟩
    · exact .inl (plain_networksPart _ fault hnetworks)
    rcases bind_eq_error.mp h with hdeployments | ⟨deployments, -, hdone⟩
    · exact .inl (plain_loadDeployments fields fault hdeployments)
    · cases hdone

theorem load_of_document {raw : Json} {name : Option Text} {document : Json} {fault : Fault}
    (hdocument : documentOf raw = .ok document)
    (hcheck : check Shape.document document [] = .error fault) :
    load raw name = .error fault := by
  rw [load, Draft.ofJson, hdocument, ok_bind, hcheck]
  rfl

theorem ReachesEntries.load_eq {raw : Json} {name : Option Text} {document : Json}
    {items : List Json} {fault : Fault} (h : ReachesEntries raw name document items)
    (hentries : loadEntries 0 items = .error fault) : load raw name = .error fault := by
  obtain ⟨title, htitle⟩ := h.named
  have habi : abiPart document = .ok items := by rw [abiPart, h.abi]
  rw [load, Draft.ofJson, h.stands, ok_bind, check_eq_ok.mpr h.fits, ok_bind, h.texts, ok_bind,
    htitle, ok_bind, habi, ok_bind, hentries]
  rfl

/-- Entries stop at the first that does not load. -/
theorem loadEntries_eq_error {index : Nat} {items : List Json} {fault : Fault}
    (h : loadEntries index items = .error fault) :
    ∃ (position : Nat) (item : Json) (entries : List Entry), items[position]? = some item ∧
      loadEntries index (items.take position) = .ok entries ∧
      loadEntry item (index + position) = .error fault := by
  induction items generalizing index with
  | nil => cases h
  | cons first rest ih =>
    rcases bind_eq_error.mp h with hfirst | ⟨entry, hentry, h⟩
    · exact ⟨0, first, [], rfl, rfl, hfirst⟩
    rcases bind_eq_error.mp h with hrest | ⟨entries, -, hdone⟩
    · obtain ⟨position, item, entries, hitem, hearlier, hfail⟩ := ih hrest
      refine ⟨position + 1, item, entry :: entries, hitem, ?_, ?_⟩
      · rw [List.take_succ_cons, loadEntries, hentry, ok_bind, hearlier]
        rfl
      · rwa [← Nat.succ_add_eq_add_succ]
    · cases hdone

theorem loadEntries_of_stop {index position : Nat} {items : List Json} {item : Json}
    {entries : List Entry} {fault : Fault} (hitem : items[position]? = some item)
    (hearlier : loadEntries index (items.take position) = .ok entries)
    (hfail : loadEntry item (index + position) = .error fault) :
    loadEntries index items = .error fault := by
  induction items generalizing index position entries with
  | nil => cases hitem
  | cons first rest ih =>
    cases position with
    | zero =>
      obtain rfl := Option.some.inj hitem
      exact bind_eq_error.mpr (.inl hfail)
    | succ position =>
      rw [List.take_succ_cons] at hearlier
      obtain ⟨entry, hentry, hearlier⟩ := bind_eq_ok.mp hearlier
      obtain ⟨others, hothers, -⟩ := bind_eq_ok.mp hearlier
      have hfail' : loadEntry item (index + 1 + position) = .error fault := by
        rwa [Nat.succ_add_eq_add_succ]
      exact bind_eq_error.mpr (.inr ⟨entry, hentry, bind_eq_error.mpr
        (.inl (ih hitem hothers hfail'))⟩)

/-- The lists of parameters of an entry, each in its turn: the inputs, and the results of a function
all of whose inputs are read. -/
inductive InTurn (item : Json) : EntryKind → Text → Prop
  | inputs {kind : EntryKind} : kind ≠ .fallback → kind ≠ .receive → InTurn item kind "inputs"
  | outputs : (∀ params, OptionalList item "inputs" params →
      ∀ param ∈ params, AbiType.Readable param) → InTurn item .function "outputs"

/-- The parameters of an entry that fits, when their turn comes. -/
theorem fits_of_inTurn {item : Json} {kind : EntryKind} {key : Text} {params : List Json}
    (hturn : InTurn item kind key) (hfits : Fits item (Shape.ofEntry kind))
    (hparams : OptionalList item key params) :
    ∀ param ∈ params, Fits param (Shape.ofItem .param) := by
  cases hparams with
  | absent => exact fun _ hmem => absurd hmem List.not_mem_nil
  | given hfield =>
    have hlist : ∃ items, Json.arr params = .arr items ∧
        ∀ param ∈ items, Fits param (Shape.ofItem .param) := by
      cases hturn with
      | outputs => exact hfits.paramList (by simp) hfield
      | inputs hfallback hreceive =>
        cases kind with
        | function | constructor | event | error => exact hfits.paramList (by simp) hfield
        | fallback => exact absurd rfl hfallback
        | receive => exact absurd rfl hreceive
    obtain ⟨items, heq, hitems⟩ := hlist
    obtain rfl := Json.arr.inj heq
    exact hitems

section

variable {ofEvent : Bool} {place : Location} {index : Nat} {item : Json} {items : List Json}
  {fault : Fault}

theorem OptionalList.unique {key : Text} {items' : List Json} (h : OptionalList item key items)
    (h' : OptionalList item key items') : items = items' :=
  Except.ok.inj ((listPart_eq_ok.mpr h).symm.trans (listPart_eq_ok.mpr h'))

theorem readable_of_parse {name : Option Text} {text : Json} {path : Option Text} {type : AbiType}
    (hname : OptionalText item "name" name) (htext : item.field? "type" = some text)
    (hread : AbiType.parse text ((item.field? "components").getD .null) path = .ok type) :
    AbiType.Readable item := by
  obtain ⟨written, rfl⟩ := AbiType.exists_text_of_parse hread
  cases item with
  | obj fields =>
    obtain ⟨own, hown⟩ : ∃ own, AbiType.ComponentName ((Json.obj fields).field? "name") own := by
      cases hname with
      | absent hfield =>
        rw [hfield]
        exact ⟨[], .absent⟩
      | given hfield =>
        rw [hfield]
        exact ⟨_, .text⟩
    have hderives := AbiType.parse_eq_ok.mp hread
    exact .mk htext hown fun place => AbiType.parse_eq_ok.mpr hderives
  | _ => cases htext

theorem SpellsParam.readable {param : Param} (h : SpellsParam ofEvent item param) :
    AbiType.Readable item := by
  obtain ⟨name, hname, -⟩ := h.name
  obtain ⟨text, path, htext, hread⟩ := h.type
  exact readable_of_parse hname htext hread

/-- The parameter of a list at which reading stops, with what it fails: its type cannot be read, and
those of all parameters before it can. The list is the one at `place`, from position `start` on. -/
structure StopsAt (params : List Json) (place : Location) (start index : Nat) (fault : Fault) :
    Prop where
  here : ∃ param text, params[index]? = some param ∧ param.field? "type" = some text ∧
    AbiType.parse text ((param.field? "components").getD .null)
      (some (Location.write (place ++ [.index (start + index), .key "type"]))) = .error fault
  earlier : ∀ param ∈ params.take index, AbiType.Readable param

/-- Parameters stop at the first whose type cannot be read, or else plainly. -/
theorem loadParams_eq_error (h : loadParams ofEvent place index items = .error fault) :
    fault.IsPlain ∨ ∃ position, StopsAt items place index position fault := by
  induction items generalizing index with
  | nil => cases h
  | cons item rest ih =>
    rcases bind_eq_error.mp h with hname | ⟨name, hname, h⟩
    · exact .inl (plain_optionalText item "name" fault hname)
    rcases bind_eq_error.mp h with htext | ⟨text, htext, h⟩
    · exact .inl (plain_part item "type" fault htext)
    rw [part_eq_ok] at htext
    rcases bind_eq_error.mp h with hread | ⟨type, hread, h⟩
    · exact .inr ⟨0, ⟨item, text, rfl, htext, hread⟩, by simp⟩
    rcases bind_eq_error.mp h with hinternal | ⟨internal, -, h⟩
    · exact .inl (plain_optionalText item "internalType" fault hinternal)
    rcases bind_eq_error.mp h with hrest | ⟨params, -, hdone⟩
    · rcases ih hrest with hplain | ⟨position, ⟨param, written, hparam, hwritten, hfail⟩, hearlier⟩
      · exact .inl hplain
      refine .inr ⟨position + 1, ⟨param, written, hparam, hwritten, ?_⟩, ?_⟩
      · rwa [← Nat.succ_add_eq_add_succ]
      · rw [List.take_succ_cons]
        have hitem := readable_of_parse (optionalText_eq_ok.mp hname) htext hread
        exact List.forall_mem_cons.mpr ⟨hitem, hearlier⟩
    · cases hdone

theorem paramsPart_eq_error {key : Text}
    (h : paramsPart ofEvent item place key = .error fault) :
    fault.IsPlain ∨ ∃ params position, OptionalList item key params ∧
      StopsAt params (place ++ [.key key]) 0 position fault := by
  rcases bind_eq_error.mp h with hlist | ⟨params, hlist, h⟩
  · exact .inl (plain_listPart item key fault hlist)
  rcases loadParams_eq_error h with hplain | ⟨position, hstops⟩
  · exact .inl hplain
  · exact .inr ⟨params, position, listPart_eq_ok.mp hlist, hstops⟩

/-- A checked entry stops at a parameter of the list whose turn it is, or else plainly. -/
theorem loadChecked_eq_error {kind : EntryKind} (h : loadChecked kind item index = .error fault) :
    fault.IsPlain ∨ ∃ key params position, InTurn item kind key ∧ OptionalList item key params ∧
      StopsAt params [.key "abi", .index index, .key key] 0 position fault := by
  have hlist {ofEvent : Bool} {key : Text} (hturn : InTurn item kind key)
      (h : paramsPart ofEvent item [.key "abi", .index index] key = .error fault) :
      fault.IsPlain ∨ ∃ key params position, InTurn item kind key ∧
        OptionalList item key params ∧
        StopsAt params [.key "abi", .index index, .key key] 0 position fault := by
    rcases paramsPart_eq_error h with hplain | ⟨params, position, hparams, hstops⟩
    · exact .inl hplain
    · exact .inr ⟨key, params, position, hturn, hparams, hstops⟩
  cases kind with
  | function =>
    rcases bind_eq_error.mp h with hname | ⟨name, -, h⟩
    · exact .inl (plain_textPart item "name" fault hname)
    rcases bind_eq_error.mp h with hinputs | ⟨inputs, hinputs, h⟩
    · exact hlist (.inputs (by decide) (by decide)) hinputs
    rcases bind_eq_error.mp h with houtputs | ⟨outputs, -, h⟩
    · refine hlist (.outputs fun params hparams param hparam => ?_) houtputs
      obtain ⟨params', hparams', hspelled⟩ := paramsPart_ok hinputs
      obtain rfl := hparams.unique hparams'
      obtain ⟨spelled, -, hspells⟩ := exists_of_forall₂ hspelled.flip hparam
      exact hspells.readable
    rcases bind_eq_error.mp h with hmutability | ⟨mutability, -, hdone⟩
    · exact .inl (plain_mutabilityPart item fault hmutability)
    · cases hdone
  | event | error =>
    rcases bind_eq_error.mp h with hname | ⟨name, -, h⟩
    · exact .inl (plain_textPart item "name" fault hname)
    rcases bind_eq_error.mp h with hinputs | ⟨inputs, -, hdone⟩
    · exact hlist (.inputs (by decide) (by decide)) hinputs
    · cases hdone
  | constructor =>
    rcases bind_eq_error.mp h with hinputs | ⟨inputs, -, h⟩
    · exact hlist (.inputs (by decide) (by decide)) hinputs
    rcases bind_eq_error.mp h with hmutability | ⟨mutability, -, hdone⟩
    · exact .inl (plain_mutabilityPart item fault hmutability)
    · cases hdone
  | fallback =>
    rcases bind_eq_error.mp h with hmutability | ⟨mutability, -, hdone⟩
    · exact .inl (plain_mutabilityPart item fault hmutability)
    · cases hdone
  | receive => cases h

/-- An entry stops at its kind, if that cannot be shown, at the check of its shape or at one of its
parameters, or else plainly. -/
theorem loadEntry_eq_error (h : loadEntry item index = .error fault) :
    fault.IsPlain ∨ (fault = .integerUnwritable ∧
        ∃ word, kindOf item = .error word ∧ word.HasLongInteger) ∨
      ∃ kind, kindOf item = .ok kind ∧
      (check (Shape.ofEntry kind) item [.key "abi", .index index] = .error fault ∨
        Fits item (Shape.ofEntry kind) ∧ ∃ key params position, InTurn item kind key ∧
          OptionalList item key params ∧
          StopsAt params [.key "abi", .index index, .key key] 0 position fault) := by
  rw [loadEntry] at h
  cases hkind : kindOf item with
  | error word =>
    simp only [hkind] at h
    split at h
    · obtain rfl := Except.error.inj h
      exact .inl trivial
    · next hnone =>
      rw [Option.not_isSome_iff_eq_none, Json.display?_eq_none] at hnone
      exact .inr (.inl ⟨(Except.error.inj h).symm, word, rfl, hnone⟩)
  | ok kind =>
    rw [hkind] at h
    rcases bind_eq_error.mp h with hcheck | ⟨⟨⟩, hcheck, h⟩
    · exact .inr (.inr ⟨kind, rfl, .inl hcheck⟩)
    rcases loadChecked_eq_error h with hplain | hstops
    · exact .inl hplain
    · exact .inr (.inr ⟨kind, rfl, .inr ⟨check_eq_ok.mp hcheck, hstops⟩⟩)

end

end Artifact

end AbiBindings
