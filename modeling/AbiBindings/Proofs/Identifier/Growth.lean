import AbiBindings.Proofs.Identifier.Assign

/-!
What further entries do to the identifiers of a namespace. Aliases are claimed before any name, so
an entry with an alias can take a name away from the entries before it. An entry without one claims
what the others left, and the identifiers before it stay.
-/

namespace AbiBindings.Identifier

section

variable {snake : Bool} {reserved : List Text} {aliases : List (Text × Text)}

theorem claimAliases_append (taken : List Text) (entries more : List Named) :
    claimAliases reserved aliases taken (entries ++ more) =
      let first := claimAliases reserved aliases taken entries
      let second := claimAliases reserved aliases first.2 more
      (first.1 ++ second.1, second.2) := by
  induction entries generalizing taken with
  | nil => rfl
  | cons entry rest ih =>
    cases h : Json.lookup aliases entry.signature with
    | some word =>
      rw [List.cons_append, claimAliases_some h, claimAliases_some h]
      dsimp only
      rw [ih]
      rfl
    | none =>
      rw [List.cons_append, claimAliases_none h, claimAliases_none h]
      dsimp only
      rw [ih]
      rfl

/-- Entries without an alias take no name in the first pass. -/
theorem taken_claimAliases_of_forall_none (taken : List Text) {more : List Named}
    (h : ∀ entry ∈ more, Json.lookup aliases entry.signature = none) :
    (claimAliases reserved aliases taken more).2 = taken := by
  have hnone : aliasCandidates reserved aliases more = [] := by
    rw [aliasCandidates, List.filterMap_eq_nil_iff]
    intro entry hentry
    rw [h entry hentry, Option.map_none]
  rw [taken_claimAliases, hnone]
  rfl

/-- The second pass decides on each entry before it looks at the next one. -/
theorem claimNames_append_prefix (taken seen : List Text)
    (pairs more : List (Named × Option Text)) :
    claimNames snake reserved taken seen pairs <+:
      claimNames snake reserved taken seen (pairs ++ more) := by
  induction pairs generalizing taken seen with
  | nil => exact List.nil_prefix
  | cons pair rest ih =>
    match pair with
    | (entry, some identifier) =>
      rw [List.cons_append, claimNames, claimNames, List.prefix_cons_inj]
      exact ih taken seen
    | (entry, none) =>
      simp only [List.cons_append, claimNames, List.prefix_cons_inj]
      exact ih _ _

theorem assign_append_prefix (snake : Bool) (reserved : List Text) (entries : List Named)
    {more : List Named} (h : ∀ entry ∈ more, Json.lookup aliases entry.signature = none) :
    assign snake reserved aliases entries <+:
      assign snake reserved aliases (entries ++ more) := by
  have hlength := length_claimAliases reserved aliases [] entries
  rw [assign_eq, assign_eq, claimAliases_append]
  dsimp only
  rw [taken_claimAliases_of_forall_none _ h, List.zip_append hlength.symm]
  exact claimNames_append_prefix _ _ _ _

end

section

variable {α : Type} (snake : Bool) (reserved : List Text) (aliases : List (Text × Text))
variable (toNamed : α → Named)

/-- Every entry keeps its identifier when entries without an alias follow. -/
theorem zip_assign_append_prefix (entries : List α) {more : List α}
    (h : ∀ entry ∈ more, Json.lookup aliases (toNamed entry).signature = none) :
    entries.zip (assign snake reserved aliases (entries.map toNamed)) <+:
      (entries ++ more).zip (assign snake reserved aliases ((entries ++ more).map toNamed)) := by
  have hnone : ∀ entry ∈ more.map toNamed, Json.lookup aliases entry.signature = none := by
    rw [List.forall_mem_map]
    exact h
  obtain ⟨others, heq⟩ := assign_append_prefix snake reserved (entries.map toNamed) hnone
  have hlength : entries.length = (assign snake reserved aliases (entries.map toNamed)).length := by
    rw [length_assign, List.length_map]
  rw [List.map_append, ← heq, List.zip_append hlength]
  exact List.prefix_append _ _

end

end AbiBindings.Identifier
