import AbiBindings.Proofs.AbiType.Reordering
import AbiBindings.Proofs.Artifact.Foreign
import AbiBindings.Proofs.Schema.Reordering

/-!
Documents with the fields of their objects in another order. Loading looks fields up by their keys,
so an artifact that can be loaded is loaded the same from a document in which fields are reordered,
at any depth. The one exception is the object of networks: it is read field by field, and its order
is the order of the deployments.
-/

namespace AbiBindings.Artifact

open Json (Reordered FieldReordered)
open Outcome

/-- The second document is the first with the fields of its objects in some order, at any depth,
except that the networks keep their order. -/
structure Rearranges (raw raw' : Json) : Prop where
  reordered : Reordered raw raw'
  networks : ∀ fields fields', raw.field? "networks" = some (.obj fields) →
    raw'.field? "networks" = some (.obj fields') → fields'.map Prod.fst = fields.map Prod.fst

theorem fits_reordered {value value' : Json} (h : Reordered value value')
    (hdistinct : value.Distinct) {shape : Shape} (hfits : Fits value shape) : Fits value' shape :=
  Reordered.keepsFollowing value value' h hdistinct shape hfits

section

variable {value value' : Json} (h : Reordered value value') (hdistinct : value.Distinct)
include h hdistinct

theorem textPart_reordered (key : Text) : textPart value' key = textPart value key := by
  rw [textPart, textPart, part, part]
  refine h.field_cases hdistinct key rfl fun _ hreordered => ?_
  cases hreordered <;> rfl

theorem optionalText_reordered (key : Text) :
    optionalText value' key = optionalText value key := by
  rw [optionalText, optionalText]
  refine h.field_cases hdistinct key rfl fun _ hreordered => ?_
  cases hreordered <;> rfl

theorem flagPart_reordered (key : Text) : flagPart value' key = flagPart value key := by
  rw [flagPart, flagPart]
  exact h.field_cases hdistinct key rfl fun _ hreordered => hreordered.isSet_eq

theorem mutabilityPart_reordered : mutabilityPart value' = mutabilityPart value := by
  rw [mutabilityPart, mutabilityPart, flagPart_reordered h hdistinct,
    flagPart_reordered h hdistinct]
  refine h.field_cases hdistinct "stateMutability" rfl fun _ hreordered => ?_
  cases hreordered <;> rfl

theorem kindOf_reordered {kind : EntryKind} (hkind : kindOf value = .ok kind) :
    kindOf value' = .ok kind := by
  rw [kindOf] at hkind ⊢
  revert hkind
  refine h.field_cases hdistinct "type" id fun _ hreordered hkind => ?_
  cases hreordered with
  | str word => exact hkind
  | _ => cases hkind

theorem listPart_reordered {key : Text} {items : List Json}
    (hitems : listPart value key = .ok items) :
    ∃ items', listPart value' key = .ok items' ∧ List.Forall₂ Reordered items items' ∧
      ∀ item ∈ items, item.Distinct := by
  rw [listPart] at hitems ⊢
  revert hitems
  refine h.field_cases hdistinct key ?_ fun hinner hreordered hitems => ?_
  · intro hitems
    cases hitems
    exact ⟨[], rfl, .nil, by simp⟩
  · cases hreordered with
    | arr hall =>
      cases hitems
      exact ⟨_, rfl, hall, Json.distinct_arr.mp hinner⟩
    | _ => cases hitems

theorem part_reordered {key : Text} {found : Json} (hpart : part value key = .ok found) :
    ∃ found', part value' key = .ok found' ∧ Reordered found found' := by
  rw [part] at hpart ⊢
  revert hpart
  refine h.field_cases hdistinct key (fun h => by cases h) fun _ hreordered hpart => ?_
  cases hpart
  exact ⟨_, rfl, hreordered⟩

end

theorem loadParams_reordered {ofEvent : Bool} {place : Location} {index : Nat}
    {items items' : List Json} {params : List Param} (h : List.Forall₂ Reordered items items')
    (hdistinct : ∀ item ∈ items, item.Distinct)
    (hparams : loadParams ofEvent place index items = .ok params) :
    loadParams ofEvent place index items' = .ok params := by
  induction h generalizing index params with
  | nil => exact hparams
  | @cons item item' _ _ hitem _ ih =>
    rw [List.forall_mem_cons] at hdistinct
    simp only [loadParams, bind_eq_ok, pure_eq_ok, Except.ok.injEq] at hparams
    obtain ⟨name, hname, text, htext, type, htype, internal, hinternal, others, hothers, rfl⟩ :=
      hparams
    obtain ⟨text', htext', hreordered⟩ := part_reordered hitem hdistinct.1 htext
    have htype' := AbiType.parse_reordered htype hreordered
      (hitem.fieldOrNull hdistinct.1 "components") (hdistinct.1.fieldOrNull "components")
    rw [loadParams, optionalText_reordered hitem hdistinct.1, hname, ok_bind, htext', ok_bind]
    simp only [htype', ok_bind, optionalText_reordered hitem hdistinct.1, hinternal,
      flagPart_reordered hitem hdistinct.1, ih hdistinct.2 hothers, pure_eq_ok]

section

variable {item item' : Json} (h : Reordered item item') (hdistinct : item.Distinct)
include h hdistinct

theorem paramsPart_reordered {ofEvent : Bool} {place : Location} {key : Text}
    {params : List Param} (hparams : paramsPart ofEvent item place key = .ok params) :
    paramsPart ofEvent item' place key = .ok params := by
  obtain ⟨items, hitems, hparams⟩ := bind_eq_ok.mp hparams
  obtain ⟨items', hitems', hall, hdistinctItems⟩ := listPart_reordered h hdistinct hitems
  rw [paramsPart, hitems', ok_bind]
  exact loadParams_reordered hall hdistinctItems hparams

theorem loadChecked_reordered {kind : EntryKind} {index : Nat} {entry : Entry}
    (hentry : loadChecked kind item index = .ok entry) :
    loadChecked kind item' index = .ok entry := by
  have hname := textPart_reordered h hdistinct "name"
  have hanonymous := flagPart_reordered h hdistinct "anonymous"
  have hmutability := mutabilityPart_reordered h hdistinct
  cases kind with
  | function =>
    simp only [loadChecked, bind_eq_ok, pure_eq_ok, Except.ok.injEq] at hentry ⊢
    obtain ⟨name, htext, inputs, hinputs, outputs, houtputs, mutability, hword, rfl⟩ := hentry
    exact ⟨name, hname.trans htext, inputs, paramsPart_reordered h hdistinct hinputs, outputs,
      paramsPart_reordered h hdistinct houtputs, mutability, hmutability.trans hword, rfl⟩
  | constructor =>
    simp only [loadChecked, bind_eq_ok, pure_eq_ok, Except.ok.injEq] at hentry ⊢
    obtain ⟨inputs, hinputs, mutability, hword, rfl⟩ := hentry
    exact ⟨inputs, paramsPart_reordered h hdistinct hinputs, mutability, hmutability.trans hword,
      rfl⟩
  | event =>
    simp only [loadChecked, bind_eq_ok, pure_eq_ok, Except.ok.injEq, hanonymous] at hentry ⊢
    obtain ⟨name, htext, inputs, hinputs, rfl⟩ := hentry
    exact ⟨name, hname.trans htext, inputs, paramsPart_reordered h hdistinct hinputs, rfl⟩
  | error =>
    simp only [loadChecked, bind_eq_ok, pure_eq_ok, Except.ok.injEq] at hentry ⊢
    obtain ⟨name, htext, inputs, hinputs, rfl⟩ := hentry
    exact ⟨name, hname.trans htext, inputs, paramsPart_reordered h hdistinct hinputs, rfl⟩
  | fallback =>
    simp only [loadChecked, hmutability] at hentry ⊢
    exact hentry
  | receive => exact hentry

theorem loadEntry_reordered {index : Nat} {entry : Entry}
    (hentry : loadEntry item index = .ok entry) : loadEntry item' index = .ok entry := by
  obtain ⟨kind, hkind, hcheck, hentry⟩ := loadEntry_eq_ok.mp hentry
  have hfits := fits_reordered h hdistinct (check_eq_ok.mp hcheck)
  exact loadEntry_eq_ok.mpr ⟨kind, kindOf_reordered h hdistinct hkind, check_eq_ok.mpr hfits,
    loadChecked_reordered h hdistinct hentry⟩

end

theorem loadEntries_reordered {items items' : List Json} {index : Nat} {entries : List Entry}
    (h : List.Forall₂ Reordered items items') (hdistinct : ∀ item ∈ items, item.Distinct)
    (hentries : loadEntries index items = .ok entries) :
    loadEntries index items' = .ok entries := by
  induction h generalizing index entries with
  | nil => exact hentries
  | cons hitem _ ih =>
    rw [List.forall_mem_cons] at hdistinct
    simp only [loadEntries, bind_eq_ok, pure_eq_ok, Except.ok.injEq] at hentries
    obtain ⟨entry, hentry, others, hothers, rfl⟩ := hentries
    rw [loadEntries, loadEntry_reordered hitem hdistinct.1 hentry, ok_bind,
      ih hdistinct.2 hothers]
    rfl

section

variable {document document' : Json} (h : Reordered document document')
variable (hdistinct : document.Distinct)
include h hdistinct

theorem loadBytecode_reordered : loadBytecode document' = loadBytecode document := by
  have htext : bytecodeText document' = bytecodeText document := by
    rw [bytecodeText, bytecodeText]
    refine h.field_cases hdistinct "bytecode" rfl fun hinner hreordered => ?_
    have hobject := textPart_reordered hreordered hinner "object"
    cases hreordered with
    | null | str => rfl
    | _ => exact hobject
  rw [loadBytecode, loadBytecode, htext]

theorem contractName_reordered (name : Option Text) :
    contractName document' name = contractName document name := by
  rw [contractName, contractName, optionalText_reordered h hdistinct]

theorem abiPart_reordered {items : List Json} (hitems : abiPart document = .ok items) :
    ∃ items', abiPart document' = .ok items' ∧ List.Forall₂ Reordered items items' ∧
      ∀ item ∈ items, item.Distinct := by
  rw [abiPart] at hitems ⊢
  revert hitems
  refine h.field_cases hdistinct "abi" (fun h => by cases h) fun hinner hreordered hitems => ?_
  cases hreordered with
  | arr hall =>
    cases hitems
    exact ⟨_, rfl, hall, Json.distinct_arr.mp hinner⟩
  | _ => cases hitems

end

theorem addressPart_reordered {value value' : Json} (h : Reordered value value')
    (hdistinct : value.Distinct) : addressPart value' = addressPart value := by
  have htext := textPart_reordered h hdistinct "address"
  cases h with
  | str => rfl
  | _ => exact htext

theorem loadDeployments_reordered {fields fields' : List (Text × Json)}
    (h : List.Forall₂ FieldReordered fields fields')
    (hdistinct : ∀ field ∈ fields, field.2.Distinct) :
    loadDeployments fields' = loadDeployments fields := by
  induction h with
  | nil => rfl
  | @cons field field' _ _ hfield _ ih =>
    obtain ⟨network, value⟩ := field
    obtain ⟨network', value'⟩ := field'
    obtain ⟨rfl, hvalue⟩ := hfield
    rw [List.forall_mem_cons] at hdistinct
    rw [loadDeployments, loadDeployments, addressPart_reordered hvalue hdistinct.1,
      ih hdistinct.2]

theorem networksPart_reordered {document document' : Json} (h : Rearranges document document')
    (hdistinct : document.Distinct) {fields : List (Text × Json)}
    (hfields : networksPart document = .ok fields) :
    ∃ fields', networksPart document' = .ok fields' ∧
      loadDeployments fields' = loadDeployments fields := by
  have hfield := h.reordered.field hdistinct "networks"
  rw [networksPart] at hfields ⊢
  cases hfound : document.field? "networks" with
  | none =>
    rw [hfound] at hfield hfields
    generalize document'.field? "networks" = found' at hfield ⊢
    cases hfield
    exact ⟨fields, hfields, rfl⟩
  | some found =>
    have hinner := hdistinct.field hfound
    cases hfound' : document'.field? "networks" with
    | none =>
      rw [hfound, hfound'] at hfield
      cases hfield
    | some found' =>
      rw [hfound, hfound'] at hfield
      rw [hfound] at hfields
      cases hfield with
      | some hreordered =>
        cases found with
        | obj networks =>
          cases found' with
          | obj networks' =>
            obtain rfl := Except.ok.inj hfields
            rw [Json.distinct_obj] at hinner
            exact ⟨networks', rfl, loadDeployments_reordered
              (hreordered.forall₂_of_keys hinner.1 (h.networks _ _ hfound hfound')) hinner.2⟩
          | _ => cases hreordered
        | _ => cases hfields

theorem documentOf_rearranges {raw raw' document : Json} (h : Rearranges raw raw')
    (hdistinct : raw.Distinct) (hdocument : documentOf raw = .ok document) :
    ∃ document', documentOf raw' = .ok document' ∧ Rearranges document document' ∧
      document.Distinct := by
  cases raw with
  | arr items =>
    obtain rfl := Except.ok.inj hdocument
    cases raw' with
    | arr items' =>
      have hfields : List.Forall₂ (fun field field' : Text × Json => Reordered field.2 field'.2)
          [("abi", .arr items)] [("abi", .arr items')] := .cons h.reordered .nil
      refine ⟨_, rfl, ⟨?_, ?_⟩, ?_⟩
      · refine .obj ?_ hfields (.refl _)
        rfl
      · intro fields fields' hfields
        cases hfields
      · exact Json.distinct_obj.mpr ⟨List.nodup_singleton _, by simpa using hdistinct⟩
    | _ => cases h.reordered
  | obj fields =>
    obtain rfl := Except.ok.inj hdocument
    cases raw' with
    | obj fields' => exact ⟨_, rfl, h, hdistinct⟩
    | _ => cases h.reordered
  | _ => cases hdocument

/-- A text in the reordered value is a text in the value. -/
theorem HasText.of_reordered {text : Text} {value value' : Json} (h : Reordered value value')
    (htext : HasText text value') : HasText text value := by
  induction value using Json.induct generalizing value' with
  | arr items ih =>
    cases h with
    | arr hall =>
      cases htext with
      | item hitem' htext =>
        obtain ⟨item, hitem, hreordered⟩ := exists_of_forall₂ hall hitem'
        exact .item hitem (ih item hitem hreordered htext)
  | obj fields ih =>
    cases value' with
    | obj fields' =>
      cases htext with
      | field hfield' htext =>
        obtain ⟨field, hfield, -, hreordered⟩ := h.exists_field hfield'
        exact .field hfield (ih field hfield hreordered htext)
    | _ => cases h
  | _ =>
    cases h
    exact htext

theorem checkTexts_reordered {document document' : Json} (h : Reordered document document')
    (hdistinct : document.Distinct) (htexts : checkTexts document = .ok ()) :
    checkTexts document' = .ok () := by
  refine forM_eq_ok.mpr fun key hkey => ?_
  have hcheck := forM_eq_ok.mp htexts key hkey
  revert hcheck
  refine h.field_cases hdistinct key id fun _ hreordered hcheck => ?_
  have hall := (checked_iff _).mp (checkText_eq_ok.mp hcheck)
  exact checkText_eq_ok.mpr ((checked_iff _).mpr fun text htext =>
    hall text (htext.of_reordered hreordered))

/-- Everything but the networks is read the same. -/
theorem Draft.ofJson_rearranges {raw raw' : Json} (h : Rearranges raw raw')
    (hdistinct : raw.Distinct) {name : Option Text} {draft : Draft}
    (hdraft : Draft.ofJson raw name = .ok draft) :
    ∃ document', Draft.ofJson raw' name = .ok { draft with document := document' } ∧
      Rearranges draft.document document' ∧ draft.document.Distinct := by
  simp only [Draft.ofJson, bind_eq_ok, pure_eq_ok, Except.ok.injEq] at hdraft
  obtain ⟨document, hdocument, ⟨⟩, hshape, ⟨⟩, htexts, title, htitle, items, hitems, entries,
    hentries, ⟨⟩, hsole, bytecode, hbytecode, rfl⟩ := hdraft
  obtain ⟨document', hdocument', hrearranges, hinner⟩ :=
    documentOf_rearranges h hdistinct hdocument
  have hreordered := hrearranges.reordered
  have hshape' : check Shape.document document' [] = .ok () :=
    check_eq_ok.mpr (fits_reordered hreordered hinner (check_eq_ok.mp hshape))
  obtain ⟨items', hitems', hall, hdistinctItems⟩ := abiPart_reordered hreordered hinner hitems
  refine ⟨document', ?_, hrearranges, hinner⟩
  rw [Draft.ofJson, hdocument', ok_bind, hshape', ok_bind,
    checkTexts_reordered hreordered hinner htexts, ok_bind,
    contractName_reordered hreordered hinner, htitle, ok_bind, hitems', ok_bind,
    loadEntries_reordered hall hdistinctItems hentries, ok_bind, hsole, ok_bind,
    loadBytecode_reordered hreordered hinner, hbytecode, ok_bind]
  rfl

/-- What can be loaded is loaded the same when fields are reordered. -/
theorem load_rearranges {raw raw' : Json} (h : Rearranges raw raw') (hdistinct : raw.Distinct)
    {name : Option Text} {artifact : Artifact} (hload : load raw name = .ok artifact) :
    load raw' name = .ok artifact := by
  simp only [load, bind_eq_ok, pure_eq_ok, Except.ok.injEq] at hload
  obtain ⟨draft, hdraft, fields, hfields, deployments, hdeployments, rfl⟩ := hload
  obtain ⟨document', hdraft', hrearranges, hinner⟩ := Draft.ofJson_rearranges h hdistinct hdraft
  obtain ⟨fields', hfields', hsame⟩ := networksPart_reordered hrearranges hinner hfields
  rw [load, hdraft', ok_bind, hfields', ok_bind, hsame, hdeployments, ok_bind]
  rfl

end AbiBindings.Artifact
