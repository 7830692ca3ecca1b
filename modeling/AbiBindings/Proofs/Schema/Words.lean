import AbiBindings.Proofs.Json.Displayed
import AbiBindings.Proofs.Schema.Breaches

/-!
Which violations can be put into words. A breach of a value is put into words that show the value,
so there are none if an integer in it has too many digits, and the same goes for what breaks each
of the alternatives that do not apply. What stands for a violation has words if the violation does.
-/

namespace AbiBindings

inductive Breach.Shows (value : Json) : Breach → Prop
  | wrongKind {kind : Kind} : Shows value (.wrongKind value kind)
  | notListed {texts : List Text} : Shows value (.notListed value texts)
  | noAlternative : Shows value (.noAlternative value)

theorem Breach.message?_eq_none {breach : Breach} :
    breach.message? = none ↔ ∃ value, breach.Shows value ∧ value.HasLongInteger := by
  have hshown {value : Json} (hshows : breach.Shows value)
      (honly : ∀ other, breach.Shows other → other = value) :
      (∃ value, breach.Shows value ∧ value.HasLongInteger) ↔ value.display? = none := by
    rw [Json.display?_eq_none]
    constructor
    · rintro ⟨other, hother, hlong⟩
      exact honly other hother ▸ hlong
    · exact fun hlong => ⟨value, hshows, hlong⟩
  cases breach with
  | wrongKind value kind =>
    rw [hshown .wrongKind (by rintro _ ⟨⟩; rfl), message?, Option.map_eq_none_iff]
  | notListed value texts =>
    rw [hshown .notListed (by rintro _ ⟨⟩; rfl), message?, Option.map_eq_none_iff]
  | noAlternative value =>
    rw [hshown .noAlternative (by rintro _ ⟨⟩; rfl), message?, Option.map_eq_none_iff]
  | missing | empty | different =>
    refine iff_of_false (by simp [message?]) ?_
    rintro ⟨_, ⟨⟩, _⟩

namespace Violation

/-- The words for the violation, or for one of an alternative, would show an integer of too many
digits. -/
inductive ShowsLong : Violation → Prop
  | here {v : Violation} {value : Json} : v.breach.Shows value → value.HasLongInteger →
      ShowsLong v
  | alternative {v w : Violation} : w ∈ v.alternatives → ShowsLong w → ShowsLong v

mutual

theorem hasWords_eq_false : ∀ v : Violation, v.hasWords = false ↔ v.ShowsLong
  | ⟨location, breach, kindFits, alternatives⟩ => by
    rw [hasWords, Bool.and_eq_false_iff, Option.isSome_eq_false_iff, Option.isNone_iff_eq_none,
      Breach.message?_eq_none, allHaveWords_eq_false alternatives]
    constructor
    · rintro (⟨value, hshows, hlong⟩ | ⟨v, hv, hlong⟩)
      · exact .here hshows hlong
      · exact .alternative hv hlong
    · intro h
      cases h with
      | here hshows hlong => exact .inl ⟨_, hshows, hlong⟩
      | alternative hv hlong => exact .inr ⟨_, hv, hlong⟩

theorem allHaveWords_eq_false :
    ∀ violations : List Violation, allHaveWords violations = false ↔
      ∃ v ∈ violations, v.ShowsLong
  | [] => by simp [allHaveWords]
  | v :: rest => by
    rw [allHaveWords, Bool.and_eq_false_iff, hasWords_eq_false v, allHaveWords_eq_false rest,
      List.exists_mem_cons_iff]

end

/-- What a violation stands for does not depend on the place from which it is seen. -/
theorem showsLong_at {v : Violation} {location : Location}
    (h : ShowsLong { v with location }) : v.ShowsLong := by
  cases h with
  | here hshows hlong => exact .here hshows hlong
  | alternative hv hlong => exact .alternative hv hlong

mutual

/-- Nothing new is shown by what stands for a violation. -/
theorem showsLong_of_refined : ∀ v : Violation, v.refined.ShowsLong → v.ShowsLong
  | ⟨location, breach, kindFits, alternatives⟩, h => by
    rw [refined] at h
    split at h
    -- what stands for the violation is one of an alternative, seen from this place
    · next chosen hsole =>
      have hmem := List.mem_of_find?_eq_some hsole
      obtain ⟨v, hv, hlong⟩ := exists_of_refinedEach alternatives _ hmem (showsLong_at h)
      exact .alternative hv hlong
    · exact h

theorem exists_of_refinedEach : ∀ (alternatives : List Violation)
    (entry : Violation × Violation), entry ∈ refinedEach alternatives → entry.2.ShowsLong →
      ∃ v ∈ alternatives, v.ShowsLong
  | [], _, hmem, _ => absurd hmem List.not_mem_nil
  | v :: rest, entry, hmem, hlong => by
    rw [refinedEach] at hmem
    rcases List.mem_cons.mp hmem with rfl | hrest
    · exact ⟨v, List.mem_cons_self, showsLong_of_refined v hlong⟩
    · obtain ⟨w, hw, hshows⟩ := exists_of_refinedEach rest entry hrest hlong
      exact ⟨w, List.mem_cons_of_mem v hw, hshows⟩

end

/-- If all violations have words, so has the one to report. -/
theorem message?_of_mostRelevant? {violations : List Violation} {v : Violation}
    (hwords : allHaveWords violations = true) (h : mostRelevant? violations = some v) :
    v.breach.message?.isSome = true := by
  obtain ⟨w, hw, rfl⟩ := Option.map_eq_some_iff.mp h
  by_contra hnone
  rw [Option.not_isSome_iff_eq_none, Breach.message?_eq_none] at hnone
  obtain ⟨value, hshows, hlong⟩ := hnone
  have hw' : w.ShowsLong := showsLong_of_refined w (.here hshows hlong)
  have hfalse := (allHaveWords_eq_false violations).mpr ⟨w, mem_of_greatest? hw, hw'⟩
  rw [hwords] at hfalse
  cases hfalse

end Violation

theorem Json.HasLongInteger.of_at? {value part : Json} {location : Location}
    (h : value.at? location = some part) (hlong : part.HasLongInteger) :
    value.HasLongInteger := by
  induction location generalizing value with
  | nil =>
    obtain rfl := Option.some.inj h
    exact hlong
  | cons step rest ih =>
    rw [at?] at h
    obtain ⟨inner, hstep, hrest⟩ := Option.bind_eq_some_iff.mp h
    cases value with
    | arr items =>
      cases step with
      | index position =>
        exact hasLongInteger_arr.mpr ⟨inner, List.mem_of_getElem? hstep, ih hrest⟩
      | key name => cases hstep
    | obj fields =>
      cases step with
      | key name => exact hasLongInteger_obj.mpr ⟨_, mem_of_lookup hstep, ih hrest⟩
      | index position => cases hstep
    | _ => cases step <;> cases hstep

/-- The words for what is wrong with a value show nothing that is not in it. -/
theorem Violation.Real.hasLongInteger {δ : Type} {define : δ → Schema δ} {schema : Schema δ}
    {value : Json} {v : Violation} (h : v.Real define schema value) (hlong : v.ShowsLong) :
    value.HasLongInteger := by
  induction h with
  | mk hgoverns hbreaks _ ih =>
    apply Json.HasLongInteger.of_at? hgoverns.at?_eq
    cases hlong with
    | here hshows hlong =>
      cases hbreaks with
      | wrongKind | notListed | noAlternative =>
        cases hshows
        exact hlong
      | missing | empty | different => cases hshows
    | alternative hv hlong => exact ih _ hv hlong

end AbiBindings
