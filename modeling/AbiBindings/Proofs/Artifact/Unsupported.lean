import AbiBindings.Proofs.Artifact.Refusal
import AbiBindings.Proofs.Artifact.Stopping

/-!
Where a type that is not supported is reported. Loading reports it for the text to blame in the
first parameter that cannot be read, in the order of the entries, of the inputs before the results,
and of the parameters in a list; and it gives the place of that text from the document down.
-/

namespace AbiBindings.Artifact

open AbiType (Blames Readable WellShaped componentsOf placeBelow)
open Outcome

/-- The place of the type of a parameter: its position in a list of an entry at a position. -/
def paramPlace (position : Nat) (key : Text) (index : Nat) : Text :=
  "abi[" ++ Text.ofNat position ++ "]." ++ key ++ "[" ++ Text.ofNat index ++ "].type"

theorem write_paramPlace (position : Nat) (key : Text) (index : Nat) :
    Location.write ([.key "abi", .index position, .key key] ++ [.index index, .key "type"]) =
      paramPlace position key index := by
  simp [Location.write, Step.writeAfter, paramPlace, Text.ofString]

/-- A parameter of an ABI list, all before which is in order: the entries before its own load, its
own has the shape of its kind, and the parameters in front of it are read. -/
structure ComesTo (items : List Json) (position : Nat) (key : Text) (index : Nat) (param : Json) :
    Prop where
  entries : ∃ entries, loadEntries 0 (items.take position) = .ok entries
  entry : ∃ item kind params, items[position]? = some item ∧ Declares item kind ∧
    Fits item (Shape.ofEntry kind) ∧ InTurn item kind key ∧ OptionalList item key params ∧
    params[index]? = some param ∧ ∀ earlier ∈ params.take index, Readable earlier

theorem not_unsupported_of_check {shape : Shape} {value : Json} {place : Location} {type : Text}
    {path : Option Text} {reason : TypeFault} :
    check shape value place ≠ .error (.unsupportedType type path reason) := by
  intro h
  rcases check_eq_error h with hfault | ⟨path, breach, hfault, -⟩
  · cases hfault
  · cases hfault

/-- A type that is not supported is that of a parameter that loading comes to. -/
theorem comesTo_of_loadEntries {items : List Json} {type : Text} {place : Option Text}
    {reason : TypeFault} (h : loadEntries 0 items = .error (.unsupportedType type place reason)) :
    ∃ position key index fields text, ComesTo items position key index (.obj fields) ∧
      Json.lookup fields "type" = some (.str text) ∧ WellShaped (componentsOf fields) ∧
      AbiType.parse (.str text) (componentsOf fields) (some (paramPlace position key index)) =
        .error (.unsupportedType type place reason) := by
  obtain ⟨position, item, entries, hitem, hentries, hfail⟩ := loadEntries_eq_error h
  rw [Nat.zero_add] at hfail
  rcases loadEntry_eq_error hfail with hplain | ⟨hfault, -⟩ |
    ⟨kind, hkind, hcheck | ⟨hfits, hstops⟩⟩
  · exact hplain.elim
  · cases hfault
  · exact absurd hcheck not_unsupported_of_check
  obtain ⟨key, params, index, hturn, hparams, ⟨param, text, hparam, htext, hread⟩, hearlier⟩ :=
    hstops
  have hshape := fits_of_inTurn hturn hfits hparams param (List.mem_of_getElem? hparam)
  have hfields := isParamItem_of_fits hshape
  obtain ⟨fields, rfl⟩ := hfields.isObject
  obtain ⟨written, hwritten⟩ := hfields.type
  rw [hwritten] at htext
  obtain rfl := Option.some.inj htext
  rw [Nat.zero_add] at hread
  have hcomes : ComesTo items position key index (.obj fields) :=
    ⟨⟨entries, hentries⟩, item, kind, params, hitem, declares_of_kindOf hkind, hfits, hturn,
      hparams, hparam, hearlier⟩
  refine ⟨position, key, index, fields, written, hcomes, hwritten,
    (wellShaped_of_fits _).2 fields rfl hshape, ?_⟩
  rw [← write_paramPlace]
  exact hread

/-- Type errors are about the first text that fails, and name its place. For components that are
well shaped, a type is not supported exactly if there is a text to blame for it, itself or the type
of a component, and the place is the given one with the steps to that text behind it. When an
artifact is refused for a type, it is that of the first parameter that cannot be read. -/
theorem unsupported_located :
    (∀ text components path type place reason, WellShaped components →
      (AbiType.parse (.str text) components path = .error (.unsupportedType type place reason) ↔
        ∃ indices culprit, Blames components text indices culprit reason ∧
          type = Text.trim culprit ∧ place = placeBelow path indices)) ∧
    ∀ raw name type place reason, load raw name = .error (.unsupportedType type place reason) →
      ∃ document items position key index fields text indices culprit,
        Opens raw document items ∧ ComesTo items position key index (.obj fields) ∧
        Json.lookup fields "type" = some (.str text) ∧
        Blames (componentsOf fields) text indices culprit reason ∧ type = Text.trim culprit ∧
        place = placeBelow (some (paramPlace position key index)) indices := by
  refine ⟨?_, ?_⟩
  · intro text components path type place reason hshaped
    exact AbiType.parse_eq_unsupported_iff hshaped
  · intro raw name type place reason h
    rcases load_eq_error h with hplain | ⟨document, -, hcheck⟩ |
      ⟨document, items, hreaches, hentries⟩
    · exact hplain.elim
    · exact absurd hcheck not_unsupported_of_check
    obtain ⟨position, key, index, fields, text, hcomes, htext, hshaped, hread⟩ :=
      comesTo_of_loadEntries hentries
    obtain ⟨indices, culprit, hblames, htype, hplace⟩ := AbiType.exists_blames hshaped hread
    exact ⟨document, items, position, key, index, fields, text, indices, culprit,
      hreaches.toOpens, hcomes, htext, hblames, htype, hplace⟩

/-- A wrong width in the second component of a struct, in front of a wrong length: as a type on its
own, and as that of a result in an artifact. -/
theorem unsupported_located_width :
    let components := Json.arr [.obj [("type", .str "address")], .obj [("type", .str " uint7 ")]]
    let raw := Json.obj [("contractName", .str "Vault"), ("abi", .arr [
      .obj [("type", .str "receive")],
      .obj [("name", .str "get"), ("inputs", .arr [.obj [("type", .str "bool")]]),
        ("outputs", .arr [.obj [("type", .str "tuple[0]"), ("components", components)]])]])]
    let own := Text.ofString "$.components[1].type"
    let place := Text.ofString "abi[1].outputs[0].type.components[1].type"
    (WellShaped components ∧
      AbiType.parse (.str "tuple[0]") components none =
        .error (.unsupportedType "uint7" (some own) .integerWidth) ∧
      ∃ indices culprit, Blames components "tuple[0]" indices culprit .integerWidth ∧
        "uint7" = Text.trim culprit ∧ some own = placeBelow none indices) ∧
    load raw none = .error (.unsupportedType "uint7" (some place) .integerWidth) ∧
    ∃ document items position key index fields text indices culprit,
      Opens raw document items ∧ ComesTo items position key index (.obj fields) ∧
      Json.lookup fields "type" = some (.str text) ∧
      Blames (componentsOf fields) text indices culprit .integerWidth ∧
      "uint7" = Text.trim culprit ∧
      some place = placeBelow (some (paramPlace position key index)) indices := by
  intro components raw own place
  have hshaped : WellShaped components := by
    refine .list ?_ ?_ ?_
    · rw [List.forall_mem_cons, List.forall_mem_singleton]
      exact ⟨⟨_, _, rfl, rfl⟩, ⟨_, _, rfl, rfl⟩⟩
    · intro fields value hmem hname
      rcases List.mem_pair.mp hmem with heq | heq
      · obtain rfl := Json.obj.inj heq
        cases hname
      · obtain rfl := Json.obj.inj heq
        cases hname
    · intro fields hmem
      rcases List.mem_pair.mp hmem with heq | heq
      · obtain rfl := Json.obj.inj heq
        exact .absent
      · obtain rfl := Json.obj.inj heq
        exact .absent
  have hread : AbiType.parse (.str "tuple[0]") components none =
      .error (.unsupportedType "uint7" (some own) .integerWidth) := rfl
  have hload : load raw none = .error (.unsupportedType "uint7" (some place) .integerWidth) := rfl
  exact ⟨⟨hshaped, hread, (unsupported_located.1 _ _ _ _ _ _ hshaped).mp hread⟩, hload,
    unsupported_located.2 _ none _ _ _ hload⟩

end AbiBindings.Artifact
