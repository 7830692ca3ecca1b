import AbiBindings.Proofs.Json.Sorted
import AbiBindings.Schema.Relevance

/-!
What it means to follow a schema, said rule by rule and without a word about violations. The check
finds nothing to report exactly in the values that follow the schema: a value of the kind asked for
of which every rule holds, where a rule about parts speaks of the parts that are there and of
nothing else.
-/

namespace AbiBindings

variable {δ : Type}

namespace Json

def Follows (define : δ → Schema δ) (value : Json) (schema : Schema δ) : Prop :=
  value.violations define schema = []

def parts (define : δ → Schema δ) : Json → Parts δ
  | arr items => itemParts define 0 items
  | obj fields => fieldParts define fields
  | _ => []

theorem violations_eq (define : δ → Schema δ) (value : Json) (schema : Schema δ) :
    value.violations define schema = schema.violations define value (value.parts define) := by
  cases value <;> rw [violations] <;> rfl

/-- The value under a key is the first part that is reached by the key. -/
theorem find?_fieldParts (define : δ → Schema δ) (fields : List (Text × Json)) (key : Text) :
    ((fieldParts define fields).find? fun part => part.1 = .key key) =
      (lookup fields key).map fun value => (.key key, value.violations define) := by
  induction fields with
  | nil => rfl
  | cons field rest ih =>
    obtain ⟨k, value⟩ := field
    rw [fieldParts, lookup]
    by_cases hkey : k = key
    · simp [hkey]
    · simpa [hkey] using ih

theorem forall_mem_fieldParts {define : δ → Schema δ} {fields : List (Text × Json)}
    {schema : Schema δ} :
    (∀ part ∈ fieldParts define fields, part.2 schema = []) ↔
      ∀ field ∈ fields, field.2.Follows define schema := by
  induction fields with
  | nil => simp [fieldParts]
  | cons field rest ih =>
    obtain ⟨key, value⟩ := field
    rw [fieldParts, List.forall_mem_cons, List.forall_mem_cons, ih]
    rfl

theorem forall_mem_itemParts {define : δ → Schema δ} {position : Nat} {items : List Json}
    {schema : Schema δ} :
    (∀ part ∈ itemParts define position items, part.2 schema = []) ↔
      ∀ item ∈ items, item.Follows define schema := by
  induction items generalizing position with
  | nil => simp [itemParts]
  | cons item rest ih =>
    rw [itemParts, List.forall_mem_cons, List.forall_mem_cons, ih]
    rfl

end Json

def Rule.Holds (define : δ → Schema δ) (value : Json) : Rule δ → Prop
  | .required key => ∀ fields, value = .obj fields → (Json.lookup fields key).isSome
  | .nonEmpty => value ≠ .str []
  | .property key schema => ∀ part, value.field? key = some part → part.Follows define schema
  | .items name => ∀ items, value = .arr items → ∀ item ∈ items, item.Follows define (define name)
  | .values schema =>
    ∀ fields, value = .obj fields → ∀ field ∈ fields, field.2.Follows define schema
  | .anyOf alternatives => ∃ schema ∈ alternatives, value.Follows define schema
  | .oneOf texts => ∃ text ∈ texts, value = .str text
  | .exactly text => value = .str text

namespace Schema

/-- One of the schemas is followed if one of the lists of violations is empty. -/
theorem any_violationsOfEach {define : δ → Schema δ} {value : Json} {schemas : List (Schema δ)} :
    (violationsOfEach define value (value.parts define) schemas).any List.isEmpty = true ↔
      ∃ schema ∈ schemas, value.Follows define schema := by
  induction schemas with
  | nil => simp [violationsOfEach]
  | cons schema rest ih =>
    rw [violationsOfEach, List.any_cons, Bool.or_eq_true, ih, List.isEmpty_iff,
      ← Json.violations_eq]
    simp [Json.Follows]

end Schema

namespace Rule

section

variable {define : δ → Schema δ} {value : Json} {fits : Bool}

theorem flatMap_beneath_eq_nil {parts : Parts δ} {schema : Schema δ} :
    (parts.flatMap fun (step, check) => (check schema).map (Violation.beneath step)) = [] ↔
      ∀ part ∈ parts, part.2 schema = [] := by
  simp

/-- A rule reports nothing exactly when it holds. -/
theorem violations_eq_nil {rule : Rule δ} :
    rule.violations define value (value.parts define) fits = [] ↔ rule.Holds define value := by
  cases rule with
  | required key =>
    cases value with
    | obj fields => simp [violations, Holds, Option.isSome_iff_exists]
    | _ => simp [violations, Holds]
  | nonEmpty =>
    cases value with
    | str text => cases text <;> simp [violations, Holds]
    | _ => simp [violations, Holds]
  | property key schema =>
    cases value with
    | obj fields =>
      rw [violations, Json.parts, Json.find?_fieldParts]
      simp only [Holds, Json.field?]
      cases Json.lookup fields key with
      | none => simp
      | some part => simp [Json.Follows]
    | _ => simp [violations, Holds, Json.field?]
  | items name =>
    cases value with
    | arr items =>
      rw [violations, Json.parts, flatMap_beneath_eq_nil, Json.forall_mem_itemParts]
      simp [Holds]
    | _ => simp [violations, Holds]
  | values schema =>
    cases value with
    | obj fields =>
      rw [violations, Json.parts, flatMap_beneath_eq_nil, Json.forall_mem_fieldParts]
      simp [Holds]
    | _ => simp [violations, Holds]
  | anyOf alternatives =>
    rw [violations, Holds, ← Schema.any_violationsOfEach]
    split <;> simp_all
  | oneOf texts =>
    cases value with
    | str text => simp [violations, Holds]
    | _ => simp [violations, Holds]
  | exactly text =>
    cases value with
    | str text => simp [violations, Holds]
    | _ => simp [violations, Holds]

theorem violationsOf_eq_nil {rules : List (Rule δ)} :
    violationsOf define value (value.parts define) fits rules = [] ↔
      ∀ rule ∈ rules, rule.Holds define value := by
  induction rules with
  | nil => simp [violationsOf]
  | cons rule rest ih =>
    rw [violationsOf, List.append_eq_nil_iff, violations_eq_nil, ih, List.forall_mem_cons]

end

end Rule

namespace Json

/-- A value follows a schema if it is of the kind asked for and all rules hold. -/
theorem follows_mk {define : δ → Schema δ} {value : Json} {kind : Option Kind}
    {rules : List (Rule δ)} :
    value.Follows define (.mk kind rules) ↔
      (∀ k ∈ kind, k.admits value = true) ∧ ∀ rule ∈ rules, rule.Holds define value := by
  rw [Follows, violations_eq]
  cases kind with
  | none => rw [Schema.violations, Rule.violationsOf_eq_nil]; simp
  | some k =>
    rw [Schema.violations, List.append_eq_nil_iff, Rule.violationsOf_eq_nil]
    simp

end Json

namespace Violation

theorem greatest?_eq_none {violations : List Violation} :
    greatest? violations = none ↔ violations = [] := by
  cases violations with
  | nil => simp [greatest?]
  | cons v rest =>
    rw [greatest?]
    split
    · simp
    · split <;> simp

/-- There is something to report unless there are no violations. -/
theorem mostRelevant?_eq_none {violations : List Violation} :
    mostRelevant? violations = none ↔ violations = [] := by
  rw [mostRelevant?, Option.map_eq_none_iff, greatest?_eq_none]

end Violation

end AbiBindings
