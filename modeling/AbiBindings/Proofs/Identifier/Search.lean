import AbiBindings.Proofs.Identifier.Claim
import Mathlib.Data.Finset.Card

/-!
The search for a free name, pass by pass. It starts at the candidate itself, and as long as the name
that it looks at is taken it goes on to the candidate with the next number. No number is bounded in
advance: what ends the search is that the names it passes over all differ and are all taken, so
there are no more passes than names. A claim gives the name at which the search ends.
-/

namespace AbiBindings.Identifier

/-- Where a search stands: the name that it looks at, and the number of the name after that. -/
structure Search where
  name : Text
  next : Nat

namespace Search

def start (candidate : Text) : Search := ⟨candidate, 1⟩

def advance (candidate : Text) (search : Search) : Search :=
  ⟨candidate ++ "_" ++ Text.ofNat search.next, search.next + 1⟩

/-- The search for a candidate comes to stand here after a number of passes, each of which finds its
name taken. -/
inductive Passes (candidate : Text) (taken : List Text) : Nat → Search → Prop
  | start : Passes candidate taken 0 (start candidate)
  | pass {count : Nat} {search : Search} : Passes candidate taken count search →
      search.name ∈ taken → Passes candidate taken (count + 1) (search.advance candidate)

section

variable {candidate : Text} {taken : List Text}

/-- A pass leads from each numbered form of the candidate to the next one. -/
theorem advance_numbered (candidate : Text) (count : Nat) :
    advance candidate ⟨numbered candidate count, count + 1⟩ =
      ⟨numbered candidate (count + 1), count + 2⟩ := rfl

/-- What a run of passes shows: the numbered forms of the candidate are looked at in their order,
and all but the last one are taken. -/
theorem passes_iff {count : Nat} {search : Search} :
    Passes candidate taken count search ↔
      search = ⟨numbered candidate count, count + 1⟩ ∧
        ∀ k < count, numbered candidate k ∈ taken := by
  constructor
  · -- Forward by induction on the passes; the name that a pass finds taken is the last one before.
    intro h
    induction h with
    | start => exact ⟨rfl, fun k hk => absurd hk (Nat.not_lt_zero k)⟩
    | @pass count search _ hmem ih =>
      obtain ⟨rfl, hbefore⟩ := ih
      refine ⟨advance_numbered candidate count, fun k hk => ?_⟩
      rcases Nat.eq_or_lt_of_le (Nat.le_of_lt_succ hk) with rfl | hk
      · exact hmem
      · exact hbefore k hk
  · -- Backward on their number: what is taken below it lets the search come that far.
    rintro ⟨rfl, hbefore⟩
    induction count with
    | zero => exact .start
    | succ count ih =>
      have hpassed := ih fun k hk => hbefore k (Nat.lt_succ_of_lt hk)
      exact .pass hpassed (hbefore count (Nat.lt_succ_self count))

/-- Every pass is over another name that is taken. -/
theorem Passes.le_card {count : Nat} {search : Search} (h : Passes candidate taken count search) :
    count ≤ taken.toFinset.card := by
  rw [List.card_toFinset]
  apply le_length_of_numbered_mem
  intro k hk
  exact List.mem_dedup.mpr ((passes_iff.mp h).2 k hk)

/-- Past a free name there is no pass. -/
theorem Passes.le_of_free {count more : Nat} {search other : Search}
    (h : Passes candidate taken count search) (hfree : search.name ∉ taken)
    (hmore : Passes candidate taken more other) : more ≤ count := by
  obtain ⟨rfl, -⟩ := passes_iff.mp h
  by_contra hlt
  exact hfree ((passes_iff.mp hmore).2 count (Nat.lt_of_not_le hlt))

end

end Search

/-- Claiming a name ends, whatever the candidate and the names that are taken. The search makes a
number of passes, stands at a free name then, and could not have made more; there are no more passes
than names that are taken. The claimed name is the one at which it stands: the first of the
candidate and its numbered forms that is free. It is the one name that is taken afterwards and was
not before. -/
theorem enter_least (candidate : Text) (taken : List Text) :
    ∃ count search, Search.Passes candidate taken count search ∧ search.name ∉ taken ∧
      (∀ more other, Search.Passes candidate taken more other → more ≤ count) ∧
      count ≤ taken.toFinset.card ∧
      (enter candidate taken).1 = search.name ∧
      search.name = numbered candidate count ∧
      (∀ k < count, numbered candidate k ∈ taken) ∧
      (enter candidate taken).2.toFinset = insert search.name taken.toFinset ∧
      (enter candidate taken).2.toFinset.card = taken.toFinset.card + 1 := by
  obtain ⟨count, -, hclaim, hfree, hbefore⟩ := exists_claim_eq candidate taken
  have hpasses : Search.Passes candidate taken count ⟨numbered candidate count, count + 1⟩ :=
    Search.passes_iff.mpr ⟨rfl, hbefore⟩
  have hafter : (enter candidate taken).2.toFinset =
      insert (numbered candidate count) taken.toFinset := by
    rw [← hclaim]
    exact List.toFinset_cons
  refine ⟨count, _, hpasses, hfree, fun more other hmore => hpasses.le_of_free hfree hmore,
    hpasses.le_card, hclaim, rfl, hbefore, hafter, ?_⟩
  rw [hafter, Finset.card_insert_of_notMem (mt List.mem_toFinset.mp hfree)]

example : enter "f" ["f_2", "f", "g", "f_1", "f"] =
    (("f_3" : Text), [("f_3" : Text), "f_2", "f", "g", "f_1", "f"]) := by decide

end AbiBindings.Identifier
