import AbiBindings.Proofs.Json.Reordering
import AbiBindings.Proofs.Schema.Following

/-!
The order of fields and schemas. A schema asks for keys and for what stands under them, and nothing
in it depends on the order in which the fields of an object stand. So a value that follows a schema
goes on to follow it when its fields are reordered. The induction is on the value, and for one
value on the schema, since an alternative is a schema for the same value.
-/

namespace AbiBindings

variable {δ : Type} {define : δ → Schema δ}

namespace Json.Reordered

variable {value value' : Json}

theorem admits_eq (h : Reordered value value') (kind : Kind) :
    kind.admits value' = kind.admits value := by
  cases h <;> cases kind <;> rfl

def KeepsFollowing (define : δ → Schema δ) (value : Json) : Prop :=
  ∀ value', Reordered value value' → value.Distinct → ∀ schema : Schema δ,
    value.Follows define schema → value'.Follows define schema

structure PartsKeep (define : δ → Schema δ) (value value' : Json) : Prop where
  reordered : Reordered value value'
  distinct : value.Distinct
  items : ∀ items, value = .arr items → ∀ item ∈ items, KeepsFollowing define item
  fields : ∀ fields : List (Text × Json), value = .obj fields →
    ∀ field ∈ fields, KeepsFollowing define field.2

namespace PartsKeep

variable (h : PartsKeep define value value')
include h

theorem required {key : Text} (hrule : (Rule.required (δ := δ) key).Holds define value) :
    (Rule.required (δ := δ) key).Holds define value' := by
  rintro fields' rfl
  have hfield := h.reordered.field h.distinct key
  cases h.reordered with
  | obj hkeys hkept hperm =>
    obtain ⟨found, hfound⟩ := Option.isSome_iff_exists.mp (hrule _ rfl)
    rw [field?, hfound, field?] at hfield
    generalize lookup fields' key = found' at hfield ⊢
    cases hfield
    rfl

theorem property {key : Text} {schema : Schema δ}
    (hrule : (Rule.property key schema).Holds define value) :
    (Rule.property key schema).Holds define value' := by
  intro part' hpart'
  have hfield := h.reordered.field h.distinct key
  rw [hpart'] at hfield
  cases hpart : value.field? key with
  | none =>
    rw [hpart] at hfield
    cases hfield
  | some part =>
    rw [hpart] at hfield
    cases hfield with
    | some hreordered =>
      cases value with
      | obj fields =>
        have hmem := mem_of_lookup hpart
        have hdistinct := (distinct_obj.mp h.distinct).2 _ hmem
        exact h.fields fields rfl _ hmem part' hreordered hdistinct schema (hrule part hpart)
      | _ => cases hpart

theorem allItems {name : δ} (hrule : (Rule.items name).Holds define value) :
    (Rule.items name).Holds define value' := by
  rintro items' rfl item' hitem'
  cases value with
  | arr items =>
    cases h.reordered with
    | arr hall =>
      obtain ⟨item, hitem, hreordered⟩ := Outcome.exists_of_forall₂ hall hitem'
      have hdistinct := distinct_arr.mp h.distinct item hitem
      exact h.items items rfl item hitem item' hreordered hdistinct _ (hrule items rfl item hitem)
  | _ => cases h.reordered

theorem values {schema : Schema δ} (hrule : (Rule.values schema).Holds define value) :
    (Rule.values schema).Holds define value' := by
  rintro fields' rfl field' hfield'
  cases value with
  | obj fields =>
    obtain ⟨field, hfield, -, hreordered⟩ := h.reordered.exists_field hfield'
    have hdistinct := (distinct_obj.mp h.distinct).2 field hfield
    exact h.fields fields rfl field hfield field'.2 hreordered hdistinct schema
      (hrule fields rfl field hfield)
  | _ => cases h.reordered

end PartsKeep

mutual

theorem PartsKeep.follows (h : PartsKeep define value value') :
    (schema : Schema δ) → value.Follows define schema → value'.Follows define schema
  | .mk kind rules, hfollows => by
    rw [follows_mk] at hfollows ⊢
    refine ⟨fun k hk => ?_, PartsKeep.holdsAll h rules hfollows.2⟩
    rw [h.reordered.admits_eq]
    exact hfollows.1 k hk

theorem PartsKeep.holdsAll (h : PartsKeep define value value') :
    (rules : List (Rule δ)) → (∀ rule ∈ rules, rule.Holds define value) →
      ∀ rule ∈ rules, rule.Holds define value'
  | [], _ => by simp
  | rule :: rest, hrules => by
    rw [List.forall_mem_cons] at hrules ⊢
    exact ⟨PartsKeep.holds h rule hrules.1, PartsKeep.holdsAll h rest hrules.2⟩

theorem PartsKeep.holds (h : PartsKeep define value value') :
    (rule : Rule δ) → rule.Holds define value → rule.Holds define value'
  | .required _, hrule => h.required hrule
  | .property _ _, hrule => h.property hrule
  | .items _, hrule => h.allItems hrule
  | .values _, hrule => h.values hrule
  | .anyOf alternatives, hrule => PartsKeep.followsOne h alternatives hrule
  | .nonEmpty, hrule => by
    rintro rfl
    cases h.reordered
    exact hrule rfl
  | .oneOf texts, hrule => by
    obtain ⟨text, htext, rfl⟩ := hrule
    cases h.reordered
    exact ⟨text, htext, rfl⟩
  | .exactly text, hrule => by
    obtain rfl : value = .str text := hrule
    cases h.reordered
    rfl

theorem PartsKeep.followsOne (h : PartsKeep define value value') :
    (schemas : List (Schema δ)) → (∃ schema ∈ schemas, value.Follows define schema) →
      ∃ schema ∈ schemas, value'.Follows define schema
  | [], hsome => by simp at hsome
  | schema :: rest, hsome => by
    rw [List.exists_mem_cons_iff] at hsome ⊢
    exact hsome.imp (PartsKeep.follows h schema) (PartsKeep.followsOne h rest)

end

/-- A value goes on to follow a schema when its fields are reordered. -/
theorem keepsFollowing (value : Json) : KeepsFollowing define value := by
  induction value using Json.induct with
  | arr items ih =>
    intro value' h hdistinct
    refine PartsKeep.follows ⟨h, hdistinct, ?_, fun fields heq => (by cases heq)⟩
    rintro items' ⟨⟩
    exact ih
  | obj fields ih =>
    intro value' h hdistinct
    refine PartsKeep.follows ⟨h, hdistinct, fun items heq => (by cases heq), ?_⟩
    rintro fields' ⟨⟩
    exact ih
  | _ =>
    intro value' h hdistinct
    exact PartsKeep.follows ⟨h, hdistinct, fun items heq => (by cases heq),
      fun fields heq => (by cases heq)⟩

end Json.Reordered

end AbiBindings
