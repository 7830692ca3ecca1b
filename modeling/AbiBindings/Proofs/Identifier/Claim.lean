import AbiBindings.Identifier.Basic
import AbiBindings.Proofs.Text.Decimal
import Mathlib.Data.List.Nodup
import Mathlib.Data.List.Perm.Subperm

/-!
What a claim yields. The numbered forms of a candidate all differ, so one of them is free before
the search runs out of numbers, and the search stops at the first that is. Claims that are made
one after the other never give the same name twice.
-/

namespace AbiBindings.Identifier

@[simp] theorem numbered_zero (candidate : Text) : numbered candidate 0 = candidate := rfl

@[simp] theorem numbered_nil_succ (number : Nat) :
    numbered [] (number + 1) = CodePoint.ofChar '_' :: Text.ofNat (number + 1) := rfl

/-- The number stands after the candidate, whatever that is. -/
theorem numbered_eq_append (candidate : Text) (number : Nat) :
    numbered candidate number = candidate ++ numbered [] number := by
  cases number with
  | zero => rw [numbered_zero, numbered_zero, List.append_nil]
  | succ number => rw [numbered, List.append_assoc]; rfl

theorem numbered_injective (candidate : Text) : Function.Injective (numbered candidate) := by
  intro m n h
  rw [numbered_eq_append, numbered_eq_append candidate n] at h
  have hnumber := List.append_cancel_left h
  cases m with
  | zero =>
    cases n with
    | zero => rfl
    | succ n => exact absurd hnumber (List.cons_ne_nil _ _).symm
  | succ m =>
    cases n with
    | zero => exact absurd hnumber (List.cons_ne_nil _ _)
    | succ n => exact Text.ofNat_injective (List.tail_eq_of_cons_eq hnumber)

theorem mem_numbered {candidate : Text} {number : Nat} {c : CodePoint}
    (hc : c ∈ numbered candidate number) :
    c ∈ candidate ∨ c = CodePoint.ofChar '_' ∨ c.isDigit = true := by
  rw [numbered_eq_append, List.mem_append] at hc
  rcases hc with hc | hc
  · exact .inl hc
  · cases number with
    | zero => exact absurd hc List.not_mem_nil
    | succ number =>
      rw [numbered_nil_succ, List.mem_cons] at hc
      rcases hc with hc | hc
      · exact .inr (.inl hc)
      · exact .inr (.inr (Text.isDigit_of_mem_ofNat hc))

/-- The search passes over names that are taken, and where it ends before its last step, the name
is free. -/
theorem exists_firstFree_eq (candidate : Text) (taken : List Text) (steps number : Nat) :
    ∃ k, number ≤ k ∧ k ≤ number + steps ∧
      firstFree candidate taken steps number = numbered candidate k ∧
      (∀ j, number ≤ j → j < k → numbered candidate j ∈ taken) ∧
      (k < number + steps → numbered candidate k ∉ taken) := by
  induction steps generalizing number with
  | zero =>
    exact ⟨number, Nat.le_refl number, Nat.le_refl number, rfl,
      fun j hj hlt => absurd hlt (by omega), fun hlt => absurd hlt (by omega)⟩
  | succ steps ih =>
    by_cases hmem : numbered candidate number ∈ taken
    · obtain ⟨k, hle, hbound, heq, hpassed, hfree⟩ := ih (number + 1)
      have hcontains : taken.contains (numbered candidate number) = true :=
        List.contains_iff_mem.mpr hmem
      refine ⟨k, by omega, by omega, ?_, ?_, fun hlt => hfree (by omega)⟩
      · rw [firstFree, if_pos hcontains, heq]
      · intro j hj hlt
        rcases Nat.eq_or_lt_of_le hj with hj | hj
        · rw [← hj]
          exact hmem
        · exact hpassed j hj hlt
    · have hcontains : ¬ taken.contains (numbered candidate number) = true :=
        fun h => hmem (List.contains_iff_mem.mp h)
      refine ⟨number, Nat.le_refl number, by omega, ?_, fun j hj hlt => absurd hlt (by omega),
        fun _ => hmem⟩
      rw [firstFree, if_neg hcontains]

/-- No more numbered forms can be taken than there are names. -/
theorem le_length_of_numbered_mem {candidate : Text} {taken : List Text} {count : Nat}
    (h : ∀ j < count, numbered candidate j ∈ taken) : count ≤ taken.length := by
  have hdistinct : ((List.range count).map (numbered candidate)).Nodup :=
    List.nodup_range.map (numbered_injective candidate)
  have hsubset : (List.range count).map (numbered candidate) ⊆ taken := by
    intro t ht
    obtain ⟨j, hj, rfl⟩ := List.mem_map.mp ht
    exact h j (List.mem_range.mp hj)
  have hlength := (hdistinct.subperm hsubset).length_le
  rwa [List.length_map, List.length_range] at hlength

/-- A claim gives the first numbered form that is free. -/
theorem exists_claim_eq (candidate : Text) (taken : List Text) :
    ∃ k ≤ taken.length, claim candidate taken = numbered candidate k ∧
      numbered candidate k ∉ taken ∧ ∀ j < k, numbered candidate j ∈ taken := by
  obtain ⟨k, -, hbound, heq, hpassed, hfree⟩ :=
    exists_firstFree_eq candidate taken taken.length 0
  have hbefore : ∀ j < k, numbered candidate j ∈ taken :=
    fun j hj => hpassed j (Nat.zero_le j) hj
  refine ⟨k, by omega, heq, ?_, hbefore⟩
  -- A form that is taken at the last step would be one too many.
  intro hmem
  have hlast : ¬ k < 0 + taken.length := fun hlt => hfree hlt hmem
  have hall : ∀ j < k + 1, numbered candidate j ∈ taken := by
    intro j hj
    rcases Nat.eq_or_lt_of_le (Nat.le_of_lt_succ hj) with hj | hj
    · rw [hj]
      exact hmem
    · exact hbefore j hj
  have hcount := le_length_of_numbered_mem hall
  omega

theorem claim_not_mem (candidate : Text) (taken : List Text) :
    claim candidate taken ∉ taken := by
  obtain ⟨k, -, heq, hfree, -⟩ := exists_claim_eq candidate taken
  rw [heq]
  exact hfree

/-- A candidate is numbered only where it is taken. -/
theorem exists_claim_eq_numbered (candidate : Text) (taken : List Text) :
    ∃ k, claim candidate taken = numbered candidate k ∧ (0 < k → candidate ∈ taken) := by
  obtain ⟨k, -, heq, -, hbefore⟩ := exists_claim_eq candidate taken
  exact ⟨k, heq, hbefore 0⟩

def claimEach {α : Type} : (taken : List Text) → List (α × Text) → List (α × Text)
  | _, [] => []
  | taken, (owner, candidate) :: rest =>
    let identifier := claim candidate taken
    (owner, identifier) :: claimEach (identifier :: taken) rest

section

variable {α : Type} {taken : List Text} {items : List (α × Text)} {p : α × Text}

theorem claimEach_cons (owner : α) (candidate : Text) (rest : List (α × Text)) :
    claimEach taken ((owner, candidate) :: rest) =
      (owner, claim candidate taken) :: claimEach (claim candidate taken :: taken) rest := rfl

/-- Claims after others are claims with the names of those taken. -/
theorem claimEach_append (xs ys : List (α × Text)) (taken : List Text) :
    claimEach taken (xs ++ ys) = claimEach taken xs ++
      claimEach (((claimEach taken xs).map Prod.snd).reverse ++ taken) ys := by
  induction xs generalizing taken with
  | nil => rfl
  | cons item rest ih =>
    obtain ⟨owner, candidate⟩ := item
    rw [List.cons_append, claimEach_cons, claimEach_cons, ih]
    simp

theorem snd_not_mem_taken (hp : p ∈ claimEach taken items) : p.2 ∉ taken := by
  induction items generalizing taken with
  | nil => exact absurd hp List.not_mem_nil
  | cons item rest ih =>
    obtain ⟨owner, candidate⟩ := item
    rw [claimEach_cons, List.mem_cons] at hp
    rcases hp with rfl | hp
    · exact claim_not_mem candidate taken
    · exact fun hmem => ih hp (List.mem_cons_of_mem _ hmem)

/-- No name is given twice. -/
theorem nodup_claimEach (taken : List Text) (items : List (α × Text)) :
    ((claimEach taken items).map Prod.snd).Nodup := by
  induction items generalizing taken with
  | nil => exact List.nodup_nil
  | cons item rest ih =>
    obtain ⟨owner, candidate⟩ := item
    rw [claimEach_cons, List.map_cons, List.nodup_cons]
    refine ⟨?_, ih _⟩
    intro hmem
    obtain ⟨p, hp, heq⟩ := List.mem_map.mp hmem
    exact snd_not_mem_taken hp (by rw [heq]; exact List.mem_cons_self)

/-- Every name is a numbered form of a candidate of its owner, and the candidate itself unless
that is a name already. -/
theorem exists_numbered_of_mem_claimEach (hp : p ∈ claimEach taken items) :
    ∃ candidate k, (p.1, candidate) ∈ items ∧ p.2 = numbered candidate k ∧
      (0 < k → candidate ∈ taken ∨ candidate ∈ (claimEach taken items).map Prod.snd) := by
  induction items generalizing taken with
  | nil => exact absurd hp List.not_mem_nil
  | cons item rest ih =>
    obtain ⟨owner, candidate⟩ := item
    rw [claimEach_cons] at hp ⊢
    rcases List.mem_cons.mp hp with rfl | hp
    · obtain ⟨k, heq, hclash⟩ := exists_claim_eq_numbered candidate taken
      exact ⟨candidate, k, List.mem_cons_self, heq, fun hk => .inl (hclash hk)⟩
    · obtain ⟨other, k, hmem, heq, hclash⟩ := ih hp
      refine ⟨other, k, List.mem_cons_of_mem _ hmem, heq, ?_⟩
      intro hk
      rw [List.map_cons, List.mem_cons]
      rcases hclash hk with hold | hnew
      · rcases List.mem_cons.mp hold with hhead | htaken
        · exact .inr (.inl hhead)
        · exact .inl htaken
      · exact .inr (.inr hnew)

end

end AbiBindings.Identifier
