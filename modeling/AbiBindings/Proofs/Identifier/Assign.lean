import AbiBindings.Identifier.Assign
import AbiBindings.Proofs.Identifier.Sanitize

/-!
The identifiers of a namespace are claims made one after the other: first for the entries with an
alias, then for the others, each in their order. So no two are the same, and each is its entry's
own spelling with at most two numbers after it: one that counts the entries of its name before it,
and one that the claim adds where that is taken.
-/

namespace AbiBindings.Identifier

def aliasCandidates (reserved : List Text) (aliases : List (Text × Text)) (entries : List Named) :
    List (Named × Text) :=
  entries.filterMap fun entry =>
    (Json.lookup aliases entry.signature).map fun word => (entry, sanitize false reserved word)

/-- The candidates of entries without an alias; `seen` holds the names before. -/
def nameCandidates (snake : Bool) (reserved : List Text) :
    (seen : List Text) → List Named → List (Named × Text)
  | _, [] => []
  | seen, entry :: rest =>
    (entry, numbered (sanitize snake reserved entry.name) (seen.count entry.name)) ::
      nameCandidates snake reserved (entry.name :: seen) rest

def unaliased (aliases : List (Text × Text)) (entries : List Named) : List Named :=
  entries.filter fun entry => (Json.lookup aliases entry.signature).isNone

def candidates (snake : Bool) (reserved : List Text) (aliases : List (Text × Text))
    (entries : List Named) : List (Named × Text) :=
  aliasCandidates reserved aliases entries ++
    nameCandidates snake reserved [] (unaliased aliases entries)

def claimedOf (pairs : List (Named × Option Text)) : List (Named × Text) :=
  pairs.filterMap fun p => p.2.map fun identifier => (p.1, identifier)

def unclaimedOf (pairs : List (Named × Option Text)) : List Named :=
  pairs.filterMap fun p => if p.2.isNone then some p.1 else none

section

variable {snake : Bool} {reserved : List Text} {aliases : List (Text × Text)}

theorem claimAliases_some {entry : Named} {word : Text}
    (h : Json.lookup aliases entry.signature = some word) (taken : List Text)
    (rest : List Named) :
    claimAliases reserved aliases taken (entry :: rest) =
      let identifier := claim (sanitize false reserved word) taken
      let others := claimAliases reserved aliases (identifier :: taken) rest
      (some identifier :: others.1, others.2) := by
  rw [claimAliases]
  simp only [h, enter]

theorem claimAliases_none {entry : Named} (h : Json.lookup aliases entry.signature = none)
    (taken : List Text) (rest : List Named) :
    claimAliases reserved aliases taken (entry :: rest) =
      let others := claimAliases reserved aliases taken rest
      (none :: others.1, others.2) := by
  rw [claimAliases]
  simp only [h]

variable (snake reserved aliases)

theorem length_claimAliases (taken : List Text) (entries : List Named) :
    (claimAliases reserved aliases taken entries).1.length = entries.length := by
  induction entries generalizing taken with
  | nil => rfl
  | cons entry rest ih =>
    cases h : Json.lookup aliases entry.signature with
    | some word => rw [claimAliases_some h, List.length_cons, List.length_cons, ih]
    | none => rw [claimAliases_none h, List.length_cons, List.length_cons, ih]

/-- The first pass claims the candidates of the entries with an alias. -/
theorem claimedOf_claimAliases (taken : List Text) (entries : List Named) :
    claimedOf (entries.zip (claimAliases reserved aliases taken entries).1) =
      claimEach taken (aliasCandidates reserved aliases entries) := by
  induction entries generalizing taken with
  | nil => rfl
  | cons entry rest ih =>
    cases h : Json.lookup aliases entry.signature with
    | some word =>
      have hcandidates : aliasCandidates reserved aliases (entry :: rest) =
          (entry, sanitize false reserved word) :: aliasCandidates reserved aliases rest := by
        simp [aliasCandidates, h]
      rw [claimAliases_some h, hcandidates, claimEach_cons, ← ih]
      rfl
    | none =>
      have hcandidates : aliasCandidates reserved aliases (entry :: rest) =
          aliasCandidates reserved aliases rest := by
        simp [aliasCandidates, h]
      rw [claimAliases_none h, hcandidates, ← ih]
      rfl

theorem taken_claimAliases (taken : List Text) (entries : List Named) :
    (claimAliases reserved aliases taken entries).2 =
      ((claimEach taken (aliasCandidates reserved aliases entries)).map Prod.snd).reverse ++
        taken := by
  induction entries generalizing taken with
  | nil => rfl
  | cons entry rest ih =>
    cases h : Json.lookup aliases entry.signature with
    | some word =>
      rw [claimAliases_some h]
      simp [ih, aliasCandidates, h, claimEach_cons]
    | none =>
      rw [claimAliases_none h]
      simp [ih, aliasCandidates, h]

/-- What the first pass leaves over are the entries without an alias. -/
theorem unclaimedOf_claimAliases (taken : List Text) (entries : List Named) :
    unclaimedOf (entries.zip (claimAliases reserved aliases taken entries).1) =
      unaliased aliases entries := by
  induction entries generalizing taken with
  | nil => rfl
  | cons entry rest ih =>
    cases h : Json.lookup aliases entry.signature with
    | some word =>
      have hover : unaliased aliases (entry :: rest) = unaliased aliases rest := by
        simp [unaliased, h]
      rw [claimAliases_some h, hover, ← ih]
      rfl
    | none =>
      have hover : unaliased aliases (entry :: rest) = entry :: unaliased aliases rest := by
        simp [unaliased, h]
      rw [claimAliases_none h, hover, ← ih]
      rfl

theorem length_claimNames (taken seen : List Text) (pairs : List (Named × Option Text)) :
    (claimNames snake reserved taken seen pairs).length = pairs.length := by
  induction pairs generalizing taken seen with
  | nil => rfl
  | cons pair rest ih =>
    match pair with
    | (entry, some identifier) => rw [claimNames, List.length_cons, List.length_cons, ih]
    | (entry, none) => simp only [claimNames, List.length_cons, ih]

/-- The second pass claims the candidates of the entries that are left over, and puts each
identifier in the place of its entry. -/
theorem zip_claimNames_perm (taken seen : List Text) (pairs : List (Named × Option Text)) :
    ((pairs.map Prod.fst).zip (claimNames snake reserved taken seen pairs)).Perm
      (claimedOf pairs ++
        claimEach taken (nameCandidates snake reserved seen (unclaimedOf pairs))) := by
  induction pairs generalizing taken seen with
  | nil => exact List.Perm.nil
  | cons pair rest ih =>
    match pair with
    | (entry, some identifier) =>
      rw [claimNames, List.map_cons, List.zip_cons_cons]
      exact (ih taken seen).cons (entry, identifier)
    | (entry, none) =>
      let base := sanitize snake reserved entry.name
      let identifier := claim (numbered base (seen.count entry.name)) taken
      have hrest := ih (identifier :: taken) (entry.name :: seen)
      exact (hrest.cons (entry, identifier)).trans List.perm_middle.symm

variable (entries : List Named)

theorem assign_eq :
    assign snake reserved aliases entries =
      claimNames snake reserved (claimAliases reserved aliases [] entries).2 []
        (entries.zip (claimAliases reserved aliases [] entries).1) := rfl

theorem length_assign :
    (assign snake reserved aliases entries).length = entries.length := by
  rw [assign_eq, length_claimNames, List.length_zip, length_claimAliases, Nat.min_self]

/-- Each identifier is claimed by its entry. -/
theorem zip_assign_perm :
    (entries.zip (assign snake reserved aliases entries)).Perm
      (claimEach [] (candidates snake reserved aliases entries)) := by
  have hlength := length_claimAliases reserved aliases [] entries
  have hperm := zip_claimNames_perm snake reserved (claimAliases reserved aliases [] entries).2 []
    (entries.zip (claimAliases reserved aliases [] entries).1)
  rw [List.map_fst_zip (Nat.le_of_eq hlength.symm), claimedOf_claimAliases,
    unclaimedOf_claimAliases] at hperm
  rw [assign_eq, candidates, claimEach_append, ← taken_claimAliases]
  exact hperm

theorem map_fst_zip_assign :
    (entries.zip (assign snake reserved aliases entries)).map Prod.fst = entries :=
  List.map_fst_zip (Nat.le_of_eq (length_assign snake reserved aliases entries).symm)

theorem map_snd_zip_assign :
    (entries.zip (assign snake reserved aliases entries)).map Prod.snd =
      assign snake reserved aliases entries :=
  List.map_snd_zip (Nat.le_of_eq (length_assign snake reserved aliases entries))

/-- No two entries share an identifier. -/
theorem nodup_assign : (assign snake reserved aliases entries).Nodup := by
  rw [← map_snd_zip_assign, ((zip_assign_perm snake reserved aliases entries).map
    Prod.snd).nodup_iff]
  exact nodup_claimEach [] _

end

/-- What the identifier of an entry is spelled like before it is numbered. -/
def base (snake : Bool) (reserved : List Text) (aliases : List (Text × Text)) (entry : Named) :
    Text :=
  match Json.lookup aliases entry.signature with
  | some word => sanitize false reserved word
  | none => sanitize snake reserved entry.name

section

variable {snake : Bool} {reserved : List Text} {aliases : List (Text × Text)}
variable {entries : List Named}

theorem base_of_some {entry : Named} {word : Text}
    (h : Json.lookup aliases entry.signature = some word) :
    base snake reserved aliases entry = sanitize false reserved word := by
  rw [base, h]

theorem base_of_none {entry : Named} (h : Json.lookup aliases entry.signature = none) :
    base snake reserved aliases entry = sanitize snake reserved entry.name := by
  rw [base, h]

theorem exists_base_eq (snake : Bool) (reserved : List Text) (aliases : List (Text × Text))
    (entry : Named) :
    ∃ style word, base snake reserved aliases entry = sanitize style reserved word := by
  cases h : Json.lookup aliases entry.signature with
  | some word => exact ⟨false, word, base_of_some h⟩
  | none => exact ⟨snake, entry.name, base_of_none h⟩

/-- The number in the candidate of a name counts entries of that name. -/
theorem exists_number_of_mem_nameCandidates {seen : List Text} {p : Named × Text}
    (hp : p ∈ nameCandidates snake reserved seen entries) :
    p.1 ∈ entries ∧ ∃ n, p.2 = numbered (sanitize snake reserved p.1.name) n ∧
      n < seen.count p.1.name + (entries.map Named.name).count p.1.name := by
  induction entries generalizing seen with
  | nil => exact absurd hp List.not_mem_nil
  | cons entry rest ih =>
    rw [nameCandidates, List.mem_cons] at hp
    rcases hp with rfl | hp
    · refine ⟨List.mem_cons_self, _, rfl, ?_⟩
      dsimp only
      rw [List.map_cons, List.count_cons_self]
      omega
    · obtain ⟨hmem, n, heq, hlt⟩ := ih hp
      refine ⟨List.mem_cons_of_mem _ hmem, n, heq, ?_⟩
      rw [List.count_cons] at hlt
      rw [List.map_cons, List.count_cons]
      omega

/-- The number in the candidate of an entry is below the count of entries that are spelled like
it. -/
theorem exists_number_of_mem_candidates {p : Named × Text}
    (hp : p ∈ candidates snake reserved aliases entries) :
    ∃ n, p.2 = numbered (base snake reserved aliases p.1) n ∧
      n < entries.countP fun other =>
        base snake reserved aliases other = base snake reserved aliases p.1 := by
  rw [candidates, List.mem_append] at hp
  rcases hp with hp | hp
  · obtain ⟨entry, hmem, hsome⟩ := List.mem_filterMap.mp hp
    obtain ⟨word, hword, rfl⟩ := Option.map_eq_some_iff.mp hsome
    refine ⟨0, (base_of_some hword).symm, ?_⟩
    exact List.countP_pos_iff.mpr ⟨entry, hmem, decide_eq_true rfl⟩
  · obtain ⟨hmem, n, heq, hlt⟩ := exists_number_of_mem_nameCandidates hp
    obtain ⟨-, hnone⟩ := List.mem_filter.mp hmem
    rw [Option.isNone_iff_eq_none] at hnone
    refine ⟨n, by rw [base_of_none hnone, heq], ?_⟩
    rw [List.count_nil, Nat.zero_add] at hlt
    refine Nat.lt_of_lt_of_le hlt ?_
    rw [List.count, List.countP_map, unaliased, List.countP_filter]
    apply List.countP_mono_left
    intro other _ hother
    simp only [Function.comp_apply, Bool.and_eq_true, beq_iff_eq,
      Option.isNone_iff_eq_none] at hother
    rw [decide_eq_true_eq, base_of_none hother.2, base_of_none hnone, hother.1]

/-- An identifier is the spelling of its entry with two numbers. The first is below the count of
entries with that spelling, and the second is there only where an identifier clashes. -/
theorem exists_numbered_of_mem_zip_assign {p : Named × Text}
    (hp : p ∈ entries.zip (assign snake reserved aliases entries)) :
    ∃ n k, p.2 = numbered (numbered (base snake reserved aliases p.1) n) k ∧
      (n < entries.countP fun other =>
        base snake reserved aliases other = base snake reserved aliases p.1) ∧
      (0 < k → numbered (base snake reserved aliases p.1) n ∈
        assign snake reserved aliases entries) := by
  have hperm := zip_assign_perm snake reserved aliases entries
  have hmem := hperm.mem_iff.mp hp
  obtain ⟨candidate, k, hcandidate, heq, hclash⟩ := exists_numbered_of_mem_claimEach hmem
  obtain ⟨n, hnumber, hlt⟩ := exists_number_of_mem_candidates hcandidate
  dsimp only at hnumber hlt
  subst hnumber
  refine ⟨n, k, heq, hlt, ?_⟩
  intro hk
  have hnames := (hclash hk).resolve_left List.not_mem_nil
  rw [← (hperm.map Prod.snd).mem_iff, map_snd_zip_assign] at hnames
  exact hnames

/-- Every identifier is usable. -/
theorem usable_of_mem_assign (hreserved : ∀ t ∈ reserved, EndsInLetter t) {identifier : Text}
    (h : identifier ∈ assign snake reserved aliases entries) : Usable reserved identifier := by
  rw [← map_snd_zip_assign] at h
  obtain ⟨p, hp, rfl⟩ := List.mem_map.mp h
  obtain ⟨n, k, heq, -, -⟩ := exists_numbered_of_mem_zip_assign hp
  obtain ⟨style, word, hbase⟩ := exists_base_eq snake reserved aliases p.1
  have husable : Usable reserved (base snake reserved aliases p.1) := by
    rw [hbase]
    exact usable_sanitize hreserved style word
  rw [heq]
  exact (husable.numbered hreserved n).numbered hreserved k

/-- In snake case, the identifier of an entry without an alias has no capitals. -/
theorem isUpper_of_mem_zip_assign {p : Named × Text} {c : CodePoint}
    (hp : p ∈ entries.zip (assign true reserved aliases entries))
    (hnone : Json.lookup aliases p.1.signature = none) (hc : c ∈ p.2) : c.isUpper = false := by
  obtain ⟨n, k, heq, -, -⟩ := exists_numbered_of_mem_zip_assign hp
  rw [heq, base_of_none hnone] at hc
  apply isUpper_of_mem_numbered _ hc
  intro d hd
  exact isUpper_of_mem_numbered (fun _ => isUpper_of_mem_sanitize) hd

end

end AbiBindings.Identifier
