import AbiBindings.Proofs.Json.Distinct
import AbiBindings.Proofs.Schema.Following

/-!
What a violation tells. It names a place in the value that was checked, and what stands there breaks
the schema that it has to follow, in the way that the violation says. Which schema that is comes
from the place: rules hand a schema on to the parts of a value, and where no alternative applies, a
value has to follow each of them. All this holds of every violation that is found, and so of the one
that is picked among them and of the one that is reported in its stead.
-/

namespace AbiBindings

variable {δ : Type}

namespace Json

def step? : Json → Step → Option Json
  | .obj fields, .key name => lookup fields name
  | .arr items, .index position => items[position]?
  | _, _ => none

def at? (value : Json) : Location → Option Json
  | [] => some value
  | step :: rest => (value.step? step).bind fun part => part.at? rest

theorem at?_append (value : Json) (before after : Location) :
    value.at? (before ++ after) = (value.at? before).bind fun part => part.at? after := by
  induction before generalizing value with
  | nil => rfl
  | cons step rest ih =>
    rw [List.cons_append, at?, at?, Option.bind_assoc]
    exact congrArg _ (funext ih)

end Json

namespace Schema

def NoneFollowed (define : δ → Schema δ) (value : Json) (alternatives : List (Schema δ)) : Prop :=
  ∀ schema ∈ alternatives, ¬ value.Follows define schema

/-- The schemas that a value and what is below it have to follow: `Governs define schema value
location inner part` says that the location leads from the value to the part, which has to follow
the inner schema if the value has to follow the outer one. An alternative counts only where none of
them is followed. -/
inductive Governs (define : δ → Schema δ) :
    Schema δ → Json → Location → Schema δ → Json → Prop
  | here {schema : Schema δ} {value : Json} : Governs define schema value [] schema value
  | property {kind : Option Kind} {rules : List (Rule δ)} {key : Text} {schema inner : Schema δ}
      {value field part : Json} {location : Location} : .property key schema ∈ rules →
      value.field? key = some field → Governs define schema field location inner part →
      Governs define (.mk kind rules) value (.key key :: location) inner part
  | items {kind : Option Kind} {rules : List (Rule δ)} {name : δ} {inner : Schema δ}
      {items : List Json} {position : Nat} {item part : Json} {location : Location} :
      .items name ∈ rules → items[position]? = some item →
      Governs define (define name) item location inner part →
      Governs define (.mk kind rules) (.arr items) (.index position :: location) inner part
  | values {kind : Option Kind} {rules : List (Rule δ)} {key : Text} {schema inner : Schema δ}
      {fields : List (Text × Json)} {field part : Json} {location : Location} :
      .values schema ∈ rules → Json.lookup fields key = some field →
      Governs define schema field location inner part →
      Governs define (.mk kind rules) (.obj fields) (.key key :: location) inner part
  | alternative {kind : Option Kind} {rules : List (Rule δ)} {alternatives : List (Schema δ)}
      {schema inner : Schema δ} {value part : Json} {location : Location} :
      .anyOf alternatives ∈ rules → schema ∈ alternatives →
      NoneFollowed define value alternatives → Governs define schema value location inner part →
      Governs define (.mk kind rules) value location inner part

/-- A value breaks a schema in some way: in the kind that the schema asks for, or in one of its
rules. -/
inductive Breaks (define : δ → Schema δ) (value : Json) : Schema δ → Breach → Prop
  | wrongKind {kind : Kind} {rules : List (Rule δ)} : kind.admits value = false →
      Breaks define value (.mk (some kind) rules) (.wrongKind value kind)
  | missing {kind : Option Kind} {rules : List (Rule δ)} {fields : List (Text × Json)} {key : Text} :
      .required key ∈ rules → value = .obj fields → Json.lookup fields key = none →
      Breaks define value (.mk kind rules) (.missing key)
  | empty {kind : Option Kind} {rules : List (Rule δ)} : .nonEmpty ∈ rules → value = .str [] →
      Breaks define value (.mk kind rules) .empty
  | notListed {kind : Option Kind} {rules : List (Rule δ)} {texts : List Text} :
      .oneOf texts ∈ rules → (∀ text ∈ texts, value ≠ .str text) →
      Breaks define value (.mk kind rules) (.notListed value texts)
  | different {kind : Option Kind} {rules : List (Rule δ)} {text : Text} :
      .exactly text ∈ rules → value ≠ .str text →
      Breaks define value (.mk kind rules) (.different text)
  | noAlternative {kind : Option Kind} {rules : List (Rule δ)} {alternatives : List (Schema δ)} :
      .anyOf alternatives ∈ rules → NoneFollowed define value alternatives →
      Breaks define value (.mk kind rules) (.noAlternative value)

section

variable {define : δ → Schema δ} {schema inner : Schema δ} {value part : Json}
  {location : Location}

theorem Governs.at?_eq (h : Governs define schema value location inner part) :
    value.at? location = some part := by
  induction h with
  | here => rfl
  | @property _ _ key _ _ value field _ _ _ hfield _ ih =>
    cases value with
    | obj fields =>
      have hstep : (Json.obj fields).step? (.key key) = some field := hfield
      rw [Json.at?, hstep]
      exact ih
    | _ => cases hfield
  | @items _ _ _ _ items position item _ _ _ hitem _ ih =>
    have hstep : (Json.arr items).step? (.index position) = some item := hitem
    rw [Json.at?, hstep]
    exact ih
  | @values _ _ key _ _ fields field _ _ _ hfield _ ih =>
    have hstep : (Json.obj fields).step? (.key key) = some field := hfield
    rw [Json.at?, hstep]
    exact ih
  | alternative _ _ _ _ ih => exact ih

theorem Governs.trans {location' : Location} {inner' : Schema δ} {part' : Json}
    (h : Governs define schema value location inner part)
    (h' : Governs define inner part location' inner' part') :
    Governs define schema value (location ++ location') inner' part' := by
  induction h with
  | here => exact h'
  | property hrule hfield _ ih => exact .property hrule hfield (ih h')
  | items hrule hitem _ ih => exact .items hrule hitem (ih h')
  | values hrule hfield _ ih => exact .values hrule hfield (ih h')
  | alternative hrule hmem hnone _ ih => exact .alternative hrule hmem hnone (ih h')

/-- What breaks a schema somewhere does not follow it there. -/
theorem Breaks.not_follows {breach : Breach} (h : Breaks define value schema breach) :
    ¬ value.Follows define schema := by
  cases schema with
  | mk kind rules =>
    rw [Json.follows_mk]
    rintro ⟨hkind, hrules⟩
    cases h with
    | wrongKind hfits =>
      rw [hkind _ rfl] at hfits
      cases hfits
    | missing hrule hvalue hlookup =>
      have hholds := hrules _ hrule _ hvalue
      rw [hlookup] at hholds
      cases hholds
    | empty hrule hvalue => exact hrules _ hrule hvalue
    | notListed hrule hnone =>
      obtain ⟨text, htext, hvalue⟩ := hrules _ hrule
      exact hnone text htext hvalue
    | different hrule hne => exact hne (hrules _ hrule)
    | noAlternative hrule hnone =>
      obtain ⟨alternative, hmem, hfollows⟩ := hrules _ hrule
      exact hnone alternative hmem hfollows

end

end Schema

/-- What a violation says of a value and a schema is so: its location leads to a value that breaks
the schema there in the way stated. The same goes for what it says of alternatives. -/
inductive Violation.Real (define : δ → Schema δ) : Schema δ → Json → Violation → Prop
  | mk {schema inner : Schema δ} {value part : Json} {location : Location} {breach : Breach}
      {kindFits : Bool} {alternatives : List Violation} :
      schema.Governs define value location inner part → inner.Breaks define part breach →
      (∀ v ∈ alternatives, Real define inner part v) →
      Real define schema value ⟨location, breach, kindFits, alternatives⟩

namespace Violation

variable {define : δ → Schema δ} {schema inner : Schema δ} {value part : Json}

theorem real_here {breach : Breach} {kindFits : Bool} (h : schema.Breaks define value breach) :
    Real define schema value ⟨[], breach, kindFits, []⟩ :=
  .mk .here h fun _ hmem => absurd hmem List.not_mem_nil

/-- A violation in a part is one in the whole, at a longer location. -/
theorem Real.ofPart {location : Location} {v : Violation} (h : Real define inner part v)
    (hgoverns : schema.Governs define value location inner part) :
    Real define schema value { v with location := location ++ v.location } := by
  cases h with
  | mk hinner hbreaks halternatives => exact .mk (hgoverns.trans hinner) hbreaks halternatives

theorem mem_refinedEach {alternatives : List Violation} {entry : Violation × Violation}
    (h : entry ∈ refinedEach alternatives) : ∃ v ∈ alternatives, entry = (v, refined v) := by
  induction alternatives with
  | nil => exact absurd h List.not_mem_nil
  | cons v rest ih =>
    rw [refinedEach] at h
    rcases List.mem_cons.mp h with rfl | hrest
    · exact ⟨v, List.mem_cons_self, rfl⟩
    · obtain ⟨w, hw, heq⟩ := ih hrest
      exact ⟨w, List.mem_cons_of_mem v hw, heq⟩

/-- What stands for a real violation is real. -/
theorem Real.refined {v : Violation} (h : Real define schema value v) :
    Real define schema value v.refined := by
  induction h with
  | mk hgoverns hbreaks halternatives ih =>
    rw [Violation.refined]
    split
    · next chosen hsole =>
      obtain ⟨w, hw, heq⟩ := mem_refinedEach (List.mem_of_find?_eq_some hsole)
      obtain ⟨-, rfl⟩ := Prod.mk.inj heq
      exact (ih w hw).ofPart hgoverns
    · exact .mk hgoverns hbreaks halternatives

theorem mem_of_greatest? {violations : List Violation} {v : Violation}
    (h : greatest? violations = some v) : v ∈ violations := by
  induction violations generalizing v with
  | nil => cases h
  | cons first rest ih =>
    rw [greatest?] at h
    split at h
    · obtain rfl := Option.some.inj h
      exact List.mem_cons_self
    · next w hrest =>
      split at h
      · obtain rfl := Option.some.inj h
        exact List.mem_cons_of_mem first (ih hrest)
      · obtain rfl := Option.some.inj h
        exact List.mem_cons_self

/-- If all violations are real, so is the one to report. -/
theorem real_of_mostRelevant? {violations : List Violation} {v : Violation}
    (hreal : ∀ w ∈ violations, Real define schema value w)
    (h : mostRelevant? violations = some v) : Real define schema value v := by
  obtain ⟨w, hw, rfl⟩ := Option.map_eq_some_iff.mp h
  exact (hreal w (mem_of_greatest? hw)).refined

end Violation

def Json.OnlyReal (define : δ → Schema δ) (value : Json) : Prop :=
  ∀ schema, ∀ v ∈ value.violations define schema, v.Real define schema value

/-- All parts of a value are reached by their steps, and the violations in them are real. -/
def Json.PartsReal (define : δ → Schema δ) (value : Json) : Prop :=
  ∀ step check, (step, check) ∈ value.parts define →
    ∃ part, value.step? step = some part ∧ check = part.violations define ∧ part.OnlyReal define

section

variable {define : δ → Schema δ} {value : Json}

namespace Rule

variable {kind : Option Kind} {rules : List (Rule δ)}

/-- A rule that hands a schema on to a part of a value. -/
theorem real_beneath {step : Step} {part : Json} {schema : Schema δ} {v : Violation}
    (hgoverns : (Schema.mk kind rules).Governs define value [step] schema part)
    (hpart : part.OnlyReal define) (h : v ∈ (part.violations define schema).map (.beneath step)) :
    v.Real define (.mk kind rules) value := by
  obtain ⟨w, hw, rfl⟩ := List.mem_map.mp h
  exact (hpart schema w hw).ofPart hgoverns

end Rule

mutual

/-- In a value all of whose parts have only real violations, a schema reports only real ones. -/
theorem Schema.real_of_mem_violations (hparts : value.PartsReal define) :
    ∀ schema : Schema δ, ∀ v ∈ schema.violations define value (value.parts define),
      v.Real define schema value
  | .mk none rules, v, h => by
    rw [Schema.violations] at h
    exact Rule.real_of_mem_violationsOf hparts rules (fun _ hrule => hrule) v h
  | .mk (some kind) rules, v, h => by
    rw [Schema.violations] at h
    rcases List.mem_append.mp h with hkind | hrules
    · split at hkind
      · exact absurd hkind List.not_mem_nil
      · next hfits =>
        obtain rfl := List.mem_singleton.mp hkind
        exact Violation.real_here (.wrongKind (Bool.eq_false_iff.mpr hfits))
    · exact Rule.real_of_mem_violationsOf hparts rules (fun _ hrule => hrule) v hrules

theorem Rule.real_of_mem_violationsOf (hparts : value.PartsReal define) {kind : Option Kind}
    {rules : List (Rule δ)} {fits : Bool} :
    ∀ listed : List (Rule δ), (∀ rule ∈ listed, rule ∈ rules) →
      ∀ v ∈ Rule.violationsOf define value (value.parts define) fits listed,
        v.Real define (.mk kind rules) value
  | [], _, v, h => absurd h List.not_mem_nil
  | rule :: rest, hlisted, v, h => by
    rw [Rule.violationsOf] at h
    rw [List.forall_mem_cons] at hlisted
    rcases List.mem_append.mp h with hrule | hrest
    · exact Rule.real_of_mem_violations hparts rule hlisted.1 v hrule
    · exact Rule.real_of_mem_violationsOf hparts rest hlisted.2 v hrest

theorem Rule.real_of_mem_violations (hparts : value.PartsReal define) {kind : Option Kind}
    {rules : List (Rule δ)} {fits : Bool} :
    ∀ rule : Rule δ, rule ∈ rules →
      ∀ v ∈ rule.violations define value (value.parts define) fits,
        v.Real define (.mk kind rules) value
  | .required key, hrule, v, h => by
    cases value with
    | obj fields =>
      rw [Rule.violations] at h
      split at h
      · exact absurd h List.not_mem_nil
      · next habsent =>
        obtain rfl := List.mem_singleton.mp h
        have hlookup : Json.lookup fields key = none := by simpa using habsent
        exact Violation.real_here (.missing hrule rfl hlookup)
    | _ => exact absurd h List.not_mem_nil
  | .nonEmpty, hrule, v, h => by
    rw [Rule.violations.eq_def] at h
    dsimp only at h
    split at h
    · obtain rfl := List.mem_singleton.mp h
      exact Violation.real_here (.empty hrule rfl)
    · exact absurd h List.not_mem_nil
  | .property key schema, hrule, v, h => by
    cases value with
    | obj fields =>
      rw [Rule.violations] at h
      split at h
      · next step check hfind =>
        obtain ⟨part, hstep, rfl, hpart⟩ := hparts step check (List.mem_of_find?_eq_some hfind)
        obtain rfl : step = .key key := by simpa using List.find?_some hfind
        exact Rule.real_beneath (.property hrule hstep .here) hpart h
      · exact absurd h List.not_mem_nil
    | _ => exact absurd h List.not_mem_nil
  | .items name, hrule, v, h => by
    cases value with
    | arr items =>
      rw [Rule.violations] at h
      obtain ⟨⟨step, check⟩, hmem, h⟩ := List.mem_flatMap.mp h
      obtain ⟨part, hstep, rfl, hpart⟩ := hparts step check hmem
      cases step with
      | index position => exact Rule.real_beneath (.items hrule hstep .here) hpart h
      | key name => cases hstep
    | _ => exact absurd h List.not_mem_nil
  | .values schema, hrule, v, h => by
    cases value with
    | obj fields =>
      rw [Rule.violations] at h
      obtain ⟨⟨step, check⟩, hmem, h⟩ := List.mem_flatMap.mp h
      obtain ⟨part, hstep, rfl, hpart⟩ := hparts step check hmem
      cases step with
      | key name => exact Rule.real_beneath (.values hrule hstep .here) hpart h
      | index position => cases hstep
    | _ => exact absurd h List.not_mem_nil
  | .anyOf alternatives, hrule, v, h => by
    rw [Rule.violations] at h
    split at h
    · exact absurd h List.not_mem_nil
    · next hany =>
      obtain rfl := List.mem_singleton.mp h
      have hnone : Schema.NoneFollowed define value alternatives := by
        intro schema hmem hfollows
        exact hany (Schema.any_violationsOfEach.mpr ⟨schema, hmem, hfollows⟩)
      refine .mk .here (.noAlternative hrule hnone) fun w hw => ?_
      obtain ⟨broken, hbroken, hw⟩ := List.mem_flatten.mp hw
      obtain ⟨schema, hmem, hreal⟩ :=
        Schema.real_of_mem_violationsOfEach hparts alternatives broken hbroken
      cases hreal w hw with
      | mk hinner hbreaks halternatives =>
        exact .mk (.alternative hrule hmem hnone hinner) hbreaks halternatives
  | .oneOf texts, hrule, v, h => by
    cases value with
    | str text =>
      rw [Rule.violations] at h
      split at h
      · exact absurd h List.not_mem_nil
      · next hlisted =>
        obtain rfl := List.mem_singleton.mp h
        refine Violation.real_here (.notListed hrule fun other hother heq => hlisted ?_)
        rw [Json.str.inj heq]
        exact List.contains_iff_mem.mpr hother
    | _ =>
      obtain rfl := List.mem_singleton.mp h
      exact Violation.real_here (.notListed hrule (by simp))
  | .exactly expected, hrule, v, h => by
    cases value with
    | str text =>
      rw [Rule.violations] at h
      split at h
      · exact absurd h List.not_mem_nil
      · next hne =>
        obtain rfl := List.mem_singleton.mp h
        exact Violation.real_here (.different hrule fun heq => hne (Json.str.inj heq))
    | _ =>
      obtain rfl := List.mem_singleton.mp h
      exact Violation.real_here (.different hrule (by simp))

theorem Schema.real_of_mem_violationsOfEach (hparts : value.PartsReal define) :
    ∀ schemas : List (Schema δ),
      ∀ broken ∈ Schema.violationsOfEach define value (value.parts define) schemas,
        ∃ schema ∈ schemas, ∀ v ∈ broken, v.Real define schema value
  | [], broken, h => absurd h List.not_mem_nil
  | schema :: rest, broken, h => by
    rw [Schema.violationsOfEach] at h
    rcases List.mem_cons.mp h with rfl | hrest
    · exact ⟨schema, List.mem_cons_self, Schema.real_of_mem_violations hparts schema⟩
    · obtain ⟨other, hmem, hreal⟩ := Schema.real_of_mem_violationsOfEach hparts rest broken hrest
      exact ⟨other, List.mem_cons_of_mem schema hmem, hreal⟩

end

namespace Json

theorem mem_fieldParts {fields : List (Text × Json)} {step : Step} {check : Schema δ → List Violation}
    (h : (step, check) ∈ fieldParts define fields) :
    ∃ key field, (key, field) ∈ fields ∧ step = .key key ∧ check = field.violations define := by
  induction fields with
  | nil => exact absurd h List.not_mem_nil
  | cons first rest ih =>
    obtain ⟨key, field⟩ := first
    rw [fieldParts] at h
    rcases List.mem_cons.mp h with heq | hrest
    · obtain ⟨rfl, rfl⟩ := Prod.mk.inj heq
      exact ⟨key, field, List.mem_cons_self, rfl, rfl⟩
    · obtain ⟨other, found, hmem, hfound⟩ := ih hrest
      exact ⟨other, found, List.mem_cons_of_mem _ hmem, hfound⟩

theorem mem_itemParts {position : Nat} {items : List Json} {step : Step}
    {check : Schema δ → List Violation} (h : (step, check) ∈ itemParts define position items) :
    ∃ index item, items[index]? = some item ∧ step = .index (position + index) ∧
      check = item.violations define := by
  induction items generalizing position with
  | nil => exact absurd h List.not_mem_nil
  | cons first rest ih =>
    rw [itemParts] at h
    rcases List.mem_cons.mp h with heq | hrest
    · obtain ⟨rfl, rfl⟩ := Prod.mk.inj heq
      exact ⟨0, first, rfl, rfl, rfl⟩
    · obtain ⟨index, item, hitem, rfl, hcheck⟩ := ih hrest
      exact ⟨index + 1, item, hitem, by rw [Nat.succ_add_eq_add_succ], hcheck⟩

/-- In a value without a key twice, only real violations are reported. -/
theorem real_of_mem_violations (value : Json) (hdistinct : value.Distinct) :
    value.OnlyReal define := by
  have hwhole (value : Json) (hparts : value.PartsReal define) : value.OnlyReal define := by
    intro schema v h
    rw [violations_eq] at h
    exact Schema.real_of_mem_violations hparts schema v h
  induction value using induct with
  | arr items ih =>
    apply hwhole
    intro step check h
    obtain ⟨index, item, hitem, rfl, rfl⟩ := mem_itemParts h
    have hmem := List.mem_of_getElem? hitem
    refine ⟨item, ?_, rfl, ih item hmem (distinct_arr.mp hdistinct item hmem)⟩
    rw [Nat.zero_add]
    exact hitem
  | obj fields ih =>
    obtain ⟨hkeys, hfields⟩ := distinct_obj.mp hdistinct
    apply hwhole
    intro step check h
    obtain ⟨key, field, hmem, rfl, rfl⟩ := mem_fieldParts h
    exact ⟨field, (lookup_eq_some hkeys).mpr hmem, rfl, ih _ hmem (hfields _ hmem)⟩
  | _ =>
    apply hwhole
    intro step check h
    exact absurd h List.not_mem_nil

/-- The violation to report is real. -/
theorem real_of_mostRelevant? {value : Json} (hdistinct : value.Distinct) {schema : Schema δ}
    {v : Violation} (h : Violation.mostRelevant? (value.violations define schema) = some v) :
    v.Real define schema value :=
  Violation.real_of_mostRelevant? (real_of_mem_violations value hdistinct schema) h

end Json

end

end AbiBindings
