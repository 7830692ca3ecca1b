import AbiBindings.Proofs.AbiType.Acceptance
import AbiBindings.Proofs.Json.Reordering

/-!
Types whose components stand in objects with their fields in another order. A component is read by
its keys, so a text derives the same type from the reordered components; the order of the components
themselves does count.
-/

namespace AbiBindings.AbiType

open Json (Reordered FieldReordered)

theorem ComponentName.reordered {value value' : Option Json} {name : Text}
    (h : ComponentName value name) (hvalue : Option.Rel Reordered value value') :
    ComponentName value' name := by
  cases h with
  | absent =>
    cases hvalue
    exact .absent
  | unset hunset =>
    cases hvalue with
    | some hreordered => exact .unset (hreordered.isSet_eq.trans hunset)
  | text =>
    cases hvalue with
    | some hreordered =>
      cases hreordered
      exact .text

/-- A text under a key is the same in the reordered object. -/
theorem lookup_text_reordered {fields fields' : List (Text × Json)} {key text : Text}
    (h : Option.Rel Reordered (Json.lookup fields key) (Json.lookup fields' key))
    (htext : Json.lookup fields key = some (.str text)) :
    Json.lookup fields' key = some (.str text) := by
  rw [htext] at h
  generalize Json.lookup fields' key = found at h ⊢
  cases h with
  | some hreordered =>
    cases hreordered
    rfl

mutual

/-- Reordered components derive the same types. -/
theorem Derives.reordered {components : Json} {w : Text} {type : AbiType} :
    Derives components w type → ∀ {components' : Json}, Reordered components components' →
      components.Distinct → Derives components' w type
  | .suffixed hbase hsuffix, _, h, hdistinct =>
    .suffixed (DerivesBase.reordered hbase h hdistinct) hsuffix
termination_by structural h => h

theorem DerivesBase.reordered {components : Json} {w : Text} {type : AbiType} :
    DerivesBase components w type → ∀ {components' : Json}, Reordered components components' →
      components.Distinct → DerivesBase components' w type
  | .named hnamed hwidth, _, _, _ => .named hnamed hwidth
  | .emptyList, _, _, _ => .emptyList
  | .list hlist, _, _, _ => .list hlist
  | .tuple hparts, _, .arr hitems, hdistinct =>
    .tuple (DerivesComponents.reordered hparts hitems (Json.distinct_arr.mp hdistinct))
termination_by structural h => h

theorem DerivesComponents.reordered {items : List Json} {parts : List (Text × AbiType)} :
    DerivesComponents items parts → ∀ {items' : List Json}, List.Forall₂ Reordered items items' →
      (∀ item ∈ items, item.Distinct) → DerivesComponents items' parts
  | .nil, _, .nil, _ => .nil
  | @DerivesComponents.cons fields text name type rest parts htext hname htype hrest, _,
      .cons (b := item') hitem hothers, hdistinct => by
    rw [List.forall_mem_cons] at hdistinct
    cases item' with
    | obj fields' =>
      have hlookup (key : Text) :
          Option.Rel Reordered (Json.lookup fields key) (Json.lookup fields' key) :=
        hitem.field hdistinct.1 key
      exact .cons (lookup_text_reordered (hlookup "type") htext)
        (hname.reordered (hlookup "name"))
        (Derives.reordered htype (hitem.fieldOrNull hdistinct.1 "components")
          (hdistinct.1.fieldOrNull "components"))
        (DerivesComponents.reordered hrest hothers hdistinct.2)
    | _ => cases hitem
termination_by structural h => h

end

/-- A type is read the same from reordered components. -/
theorem parse_reordered {text text' components components' : Json} {path : Option Text}
    {type : AbiType} (h : parse text components path = .ok type) (htext : Reordered text text')
    (hcomponents : Reordered components components') (hdistinct : components.Distinct) :
    parse text' components' path = .ok type := by
  obtain ⟨written, rfl⟩ := exists_text_of_parse h
  cases htext
  obtain ⟨hderives, hsupported⟩ := parse_eq_ok.mp h
  exact parse_eq_ok.mpr ⟨hderives.reordered hcomponents hdistinct, hsupported⟩

end AbiBindings.AbiType
