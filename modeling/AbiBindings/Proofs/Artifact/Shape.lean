import AbiBindings.Artifact.Load
import AbiBindings.Proofs.AbiType.Refusal
import AbiBindings.Proofs.Schema.Words

/-!
The shapes of artifacts, entries and parameters, said field by field: what a value that fits has
under which key. The check of a shape lets exactly the fitting values pass.
-/

namespace AbiBindings.Artifact

def Fits (value : Json) (shape : Shape) : Prop := value.Follows Shape.ofItem shape

/-- A check passes exactly if the value fits. -/
theorem check_eq_ok {shape : Shape} {value : Json} {place : Location} :
    check shape value place = .ok () ↔ Fits value shape := by
  rw [check, Fits, Json.Follows, ← Violation.mostRelevant?_eq_none]
  cases Violation.mostRelevant? (value.violations Shape.ofItem shape) with
  | none => simp
  | some violation => cases Violation.allHaveWords (value.violations Shape.ofItem shape) <;> simp

/-- A check that does not pass finds a fault in the document, or no words for one. -/
theorem check_eq_error {shape : Shape} {value : Json} {place : Location} {fault : Fault}
    (h : check shape value place = .error fault) :
    fault = .integerUnwritable ∨
      ∃ path breach, fault = .invalidArtifact path (.breach breach) ∧
        breach.message?.isSome = true := by
  rw [check] at h
  split at h
  · cases h
  · next violation hviolation =>
    split at h
    · next hwords =>
      have hmessage := Violation.message?_of_mostRelevant? hwords hviolation
      exact .inr ⟨_, _, (Except.error.inj h).symm, hmessage⟩
    · exact .inl (Except.error.inj h).symm

/-- A check finds no words exactly if one of the violations would show an integer of too many
digits. -/
theorem check_eq_unwritable {shape : Shape} {value : Json} {place : Location} :
    check shape value place = .error .integerUnwritable ↔
      ∃ v ∈ value.violations Shape.ofItem shape, v.ShowsLong := by
  rw [check, ← Violation.allHaveWords_eq_false]
  cases hviolation : Violation.mostRelevant? (value.violations Shape.ofItem shape) with
  | none =>
    rw [Violation.mostRelevant?_eq_none.mp hviolation]
    simp [Violation.allHaveWords]
  | some violation =>
    cases Violation.allHaveWords (value.violations Shape.ofItem shape) <;> simp

section

variable {value part : Json} {kind : Option Kind} {rules : List (Rule ItemShape)} {key : Text}

theorem Fits.isObject (h : Fits value (.mk (some .object) rules)) :
    ∃ fields, value = .obj fields := by
  have hkind := (Json.follows_mk.mp h).1 .object rfl
  cases value with
  | obj fields => exact ⟨fields, rfl⟩
  | _ => cases hkind

/-- What stands under the key of a rule fits the shape of the rule. -/
theorem Fits.property (h : Fits value (.mk kind rules)) {shape : Shape}
    (hrule : .property key shape ∈ rules) (hpart : value.field? key = some part) :
    Fits part shape :=
  (Json.follows_mk.mp h).2 _ hrule part hpart

theorem Fits.required (h : Fits value (.mk (some .object) rules)) (key : Text)
    (hrule : .required key ∈ rules) : ∃ part, value.field? key = some part := by
  obtain ⟨fields, rfl⟩ := h.isObject
  exact Option.isSome_iff_exists.mp ((Json.follows_mk.mp h).2 _ hrule fields rfl)

end

section

variable {value : Json}

theorem fits_text : Fits value Shape.text ↔ ∃ text, value = .str text := by
  rw [Fits, Shape.text, Json.follows_mk]
  cases value <;> simp [Kind.admits]

theorem fits_name : Fits value Shape.name ↔ ∃ text, value = .str text ∧ text ≠ [] := by
  rw [Fits, Shape.name, Json.follows_mk]
  cases value <;> simp [Kind.admits, Rule.Holds]

theorem fits_listOf {name : ItemShape} :
    Fits value (Shape.listOf name) ↔
      ∃ items, value = .arr items ∧ ∀ item ∈ items, Fits item (Shape.ofItem name) := by
  rw [Fits, Shape.listOf, Json.follows_mk]
  cases value <;> simp [Kind.admits, Rule.Holds, Fits]

theorem fits_word {words : List Text} :
    Fits value (Shape.word words) ↔ ∃ word ∈ words, value = .str word := by
  rw [Fits, Shape.word, Json.follows_mk]
  simp [Rule.Holds]

theorem fits_anyOf {alternatives : List Shape} :
    Fits value (.mk none [.anyOf alternatives]) ↔ ∃ shape ∈ alternatives, Fits value shape := by
  rw [Fits, Json.follows_mk]
  simp [Rule.Holds, Fits]

/-- A value with an alternative for texts is a text, or an object that has one under the key. -/
theorem exists_of_textOrField {key : Text} {shape : Shape} (hshape : shape ∈ Shape.textOrField key)
    (h : Fits value shape) :
    (∃ text, value = .str text) ∨
      ∃ fields text, value = .obj fields ∧ Json.lookup fields key = some (.str text) := by
  rw [Shape.textOrField, List.mem_pair] at hshape
  rcases hshape with rfl | rfl
  · exact .inl (fits_text.mp h)
  · obtain ⟨fields, rfl⟩ := h.isObject
    obtain ⟨part, hpart⟩ := h.required key (by simp)
    obtain ⟨text, rfl⟩ := fits_text.mp (h.property (by simp) hpart)
    exact .inr ⟨fields, text, rfl, hpart⟩

end

section

variable {item : Json}

structure IsParamItem (item : Json) : Prop where
  isObject : ∃ fields, item = .obj fields
  type : ∃ text, item.field? "type" = some (.str text)
  name : ∀ value, item.field? "name" = some value → ∃ text, value = .str text
  internalType : ∀ value, item.field? "internalType" = some value → ∃ text, value = .str text
  components : ∀ value, item.field? "components" = some value →
    ∃ items, value = .arr items ∧ ∀ part ∈ items, Fits part (Shape.ofItem .param)

theorem isParamItem_of_fits (h : Fits item (Shape.ofItem .param)) : IsParamItem item where
  isObject := h.isObject
  type := by
    obtain ⟨value, hvalue⟩ := h.required "type" (by simp [Shape.paramRules])
    obtain ⟨text, rfl⟩ := fits_text.mp (h.property (by simp [Shape.paramRules]) hvalue)
    exact ⟨text, hvalue⟩
  name value hvalue := fits_text.mp (h.property (by simp [Shape.paramRules]) hvalue)
  internalType value hvalue := fits_text.mp (h.property (by simp [Shape.paramRules]) hvalue)
  components value hvalue := fits_listOf.mp (h.property (by simp [Shape.paramRules]) hvalue)

/-- Parameters of events have more to fit. -/
theorem fits_param_of_event (h : Fits item (Shape.ofItem .eventParam)) :
    Fits item (Shape.ofItem .param) := by
  obtain ⟨hkind, hrules⟩ := Json.follows_mk.mp h
  exact Json.follows_mk.mpr ⟨hkind, fun rule hrule => hrules rule (List.mem_append_left _ hrule)⟩

/-- A list of parameters, of events or not, that the shape of an entry asks for under a key. -/
theorem Fits.paramList {kind : Option Kind} {rules : List (Rule ItemShape)}
    (h : Fits item (.mk kind rules)) {key : Text} {value : Json}
    (hrule : .property key (Shape.listOf .param) ∈ rules ∨
      .property key (Shape.listOf .eventParam) ∈ rules) (hvalue : item.field? key = some value) :
    ∃ params, value = .arr params ∧ ∀ param ∈ params, Fits param (Shape.ofItem .param) := by
  rcases hrule with hrule | hrule
  · exact fits_listOf.mp (h.property hrule hvalue)
  · obtain ⟨params, rfl, hparams⟩ := fits_listOf.mp (h.property hrule hvalue)
    exact ⟨params, rfl, fun param hmem => fits_param_of_event (hparams param hmem)⟩

end

end AbiBindings.Artifact
