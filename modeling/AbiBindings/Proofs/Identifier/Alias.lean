import AbiBindings.Proofs.Identifier.Assign
import AbiBindings.Proofs.Text.Blanks

/-!
Identifiers from aliases. They are claimed before all others, so what has no alias makes no
difference to them: the identifier of an alias is the alias itself as an identifier, unless an
earlier alias has that. Two aliases that are identifiers, but for a line end, become the same one
only if they differ in that or in the number of underscores in front, or if one is taken and the
other is that one with an underscore after it.
-/

namespace AbiBindings.Identifier

/-- The first numbered form of a candidate that is not taken. -/
def IsFirstFree (candidate : Text) (taken : List Text) (identifier : Text) : Prop :=
  ∃ k, identifier = numbered candidate k ∧ identifier ∉ taken ∧
    ∀ j < k, numbered candidate j ∈ taken

theorem isFirstFree_claim (candidate : Text) (taken : List Text) :
    IsFirstFree candidate taken (claim candidate taken) := by
  obtain ⟨k, -, heq, hfree, hbefore⟩ := exists_claim_eq candidate taken
  exact ⟨k, heq, heq ▸ hfree, hbefore⟩

theorem IsFirstFree.congr {candidate identifier : Text} {taken taken' : List Text}
    (h : IsFirstFree candidate taken identifier) (hmem : ∀ t, t ∈ taken ↔ t ∈ taken') :
    IsFirstFree candidate taken' identifier := by
  obtain ⟨k, heq, hfree, hbefore⟩ := h
  exact ⟨k, heq, mt (hmem _).mpr hfree, fun j hj => (hmem _).mp (hbefore j hj)⟩

/-- A candidate is the claimed name itself exactly if it is not taken. -/
theorem claim_eq_self_iff {candidate : Text} {taken : List Text} :
    claim candidate taken = candidate ↔ candidate ∉ taken := by
  constructor
  · intro h
    rw [← h]
    exact claim_not_mem candidate taken
  · intro hfree
    obtain ⟨k, heq, hclash⟩ := exists_claim_eq_numbered candidate taken
    cases k with
    | zero => exact heq
    | succ k => exact absurd (hclash k.succ_pos) hfree

/-- Claims that are made one after the other give all candidates as they are exactly if these are
different and free. -/
theorem claimEach_eq_self_iff {α : Type} {taken : List Text} {items : List (α × Text)} :
    claimEach taken items = items ↔
      (items.map Prod.snd).Nodup ∧ ∀ item ∈ items, item.2 ∉ taken := by
  induction items generalizing taken with
  | nil => simp [claimEach]
  | cons item rest ih =>
    obtain ⟨owner, candidate⟩ := item
    rw [claimEach_cons, List.cons.injEq, Prod.mk.injEq, claim_eq_self_iff, List.map_cons,
      List.nodup_cons, List.forall_mem_cons]
    constructor
    · rintro ⟨⟨-, hfree⟩, hrest⟩
      rw [claim_eq_self_iff.mpr hfree] at hrest
      obtain ⟨hdistinct, hothers⟩ := ih.mp hrest
      refine ⟨⟨?_, hdistinct⟩, hfree, fun other hother => ?_⟩
      · intro hmem
        obtain ⟨other, hother, heq⟩ := List.mem_map.mp hmem
        exact hothers other hother (heq ▸ List.mem_cons_self)
      · exact fun htaken => hothers other hother (List.mem_cons_of_mem _ htaken)
    · rintro ⟨⟨hnew, hdistinct⟩, hfree, hothers⟩
      refine ⟨⟨rfl, hfree⟩, ?_⟩
      rw [claim_eq_self_iff.mpr hfree]
      refine ih.mpr ⟨hdistinct, fun other hother => ?_⟩
      rw [List.mem_cons, not_or]
      exact ⟨fun heq => hnew (heq ▸ List.mem_map_of_mem hother), hothers other hother⟩

section

variable {α β : Type} {owner : β → α} {candidate identifier : β → Text}

/-- What is claimed is the first free form of its candidate, after what is claimed before. -/
theorem isFirstFree_of_claimEach {taken : List Text} {before after : List β} {b : β}
    (h : claimEach taken ((before ++ b :: after).map fun c => (owner c, candidate c)) =
      (before ++ b :: after).map fun c => (owner c, identifier c)) :
    IsFirstFree (candidate b) (before.map identifier ++ taken) (identifier b) := by
  induction before generalizing taken with
  | nil =>
    obtain ⟨hhead, -⟩ := List.cons.inj h
    have hclaim : claim (candidate b) taken = identifier b := congrArg Prod.snd hhead
    rw [← hclaim]
    exact isFirstFree_claim (candidate b) taken
  | cons first before ih =>
    obtain ⟨hhead, htail⟩ := List.cons.inj h
    have hfirst : claim (candidate first) taken = identifier first := congrArg Prod.snd hhead
    rw [hfirst] at htail
    refine (ih htail).congr fun t => ?_
    simp only [List.map_cons, List.mem_append, List.mem_cons]
    rw [or_left_comm, or_assoc]

end

section

variable (snake : Bool) (reserved : List Text) (aliases : List (Text × Text))

/-- The first pass gives an identifier to the entries with an alias. -/
theorem isSome_of_mem_zip_claimAliases (taken : List Text) (entries : List Named) :
    ∀ pair ∈ entries.zip (claimAliases reserved aliases taken entries).1,
      pair.2.isSome = (Json.lookup aliases pair.1.signature).isSome := by
  induction entries generalizing taken with
  | nil => exact fun pair hpair => absurd hpair List.not_mem_nil
  | cons entry rest ih =>
    cases halias : Json.lookup aliases entry.signature with
    | some word =>
      rw [claimAliases_some halias]
      refine List.forall_mem_cons.mpr ⟨?_, ih _⟩
      rw [halias, Option.isSome_some, Option.isSome_some]
    | none =>
      rw [claimAliases_none halias]
      exact List.forall_mem_cons.mpr ⟨congrArg Option.isSome halias.symm, ih _⟩

/-- The second pass keeps the identifiers of the first. -/
theorem filter_zip_claimNames (taken seen : List Text) {pairs : List (Named × Option Text)}
    (h : ∀ pair ∈ pairs, pair.2.isSome = (Json.lookup aliases pair.1.signature).isSome) :
    ((pairs.map Prod.fst).zip (claimNames snake reserved taken seen pairs)).filter
        (fun p => (Json.lookup aliases p.1.signature).isSome) = claimedOf pairs := by
  induction pairs generalizing taken seen with
  | nil => rfl
  | cons pair rest ih =>
    obtain ⟨hfirst, hrest⟩ := List.forall_mem_cons.mp h
    match pair with
    | (entry, some identifier) =>
      have halias : (Json.lookup aliases entry.signature).isSome = true := hfirst.symm
      rw [claimNames, List.map_cons, List.zip_cons_cons, List.filter_cons, if_pos halias,
        ih taken seen hrest]
      rfl
    | (entry, none) =>
      have halias : ¬ (Json.lookup aliases entry.signature).isSome = true := by
        rw [← hfirst]
        exact Bool.false_ne_true
      simp only [claimNames, List.map_cons, List.zip_cons_cons]
      rw [List.filter_cons, if_neg halias, ih _ _ hrest]
      rfl

/-- The identifiers of the entries with an alias are claimed before all others. -/
theorem filter_zip_assign (entries : List Named) :
    (entries.zip (assign snake reserved aliases entries)).filter
        (fun p => (Json.lookup aliases p.1.signature).isSome) =
      claimEach [] (aliasCandidates reserved aliases entries) := by
  have hlength := length_claimAliases reserved aliases [] entries
  have hkept := filter_zip_claimNames snake reserved aliases
    (claimAliases reserved aliases [] entries).2 []
    (isSome_of_mem_zip_claimAliases reserved aliases [] entries)
  rw [List.map_fst_zip (Nat.le_of_eq hlength.symm), claimedOf_claimAliases] at hkept
  rw [assign_eq]
  exact hkept

end

def aliased {ν : Type} (signatureOf : ν → Text) (aliases : List (Text × Text))
    (records : List ν) : List (ν × Text) :=
  records.filterMap fun record =>
    (Json.lookup aliases (signatureOf record)).map fun word => (record, word)

section

variable {ν : Type} {signatureOf : ν → Text} {aliases : List (Text × Text)} {records : List ν}

theorem mem_aliased {record : ν} {word : Text} :
    (record, word) ∈ aliased signatureOf aliases records ↔
      record ∈ records ∧ Json.lookup aliases (signatureOf record) = some word := by
  rw [aliased, List.mem_filterMap]
  constructor
  · rintro ⟨found, hfound, heq⟩
    obtain ⟨other, hother, heq⟩ := Option.map_eq_some_iff.mp heq
    obtain ⟨rfl, rfl⟩ := Prod.mk.inj heq
    exact ⟨hfound, hother⟩
  · rintro ⟨hrecord, hword⟩
    exact ⟨record, hrecord, by rw [hword, Option.map_some]⟩

/-- What is told of records with an alias, as it is told of all records. -/
theorem map_aliased {β : Type} (f : ν → β) :
    (aliased signatureOf aliases records).map (fun p => f p.1) =
      (records.filter fun record => (Json.lookup aliases (signatureOf record)).isSome).map f := by
  induction records with
  | nil => rfl
  | cons record rest ih =>
    rw [List.filter_cons]
    cases h : Json.lookup aliases (signatureOf record) with
    | none => simpa [aliased, h] using ih
    | some word => simpa [aliased, h] using ih

variable {snake : Bool} {reserved : List Text} {nameOf identifierOf : ν → Text}
  (hassign : records.map identifierOf = assign snake reserved aliases
    (records.map fun record => ⟨nameOf record, signatureOf record⟩))
include hassign

/-- The identifiers of records with an alias are claimed before all others. -/
theorem claimEach_aliased :
    claimEach [] ((aliased signatureOf aliases records).map fun p =>
        ((⟨nameOf p.1, signatureOf p.1⟩ : Named), sanitize false reserved p.2)) =
      (aliased signatureOf aliases records).map fun p =>
        ((⟨nameOf p.1, signatureOf p.1⟩ : Named), identifierOf p.1) := by
  have hcandidates : (aliased signatureOf aliases records).map (fun p =>
      ((⟨nameOf p.1, signatureOf p.1⟩ : Named), sanitize false reserved p.2)) =
      aliasCandidates reserved aliases
        (records.map fun record => ⟨nameOf record, signatureOf record⟩) := by
    simp only [aliased, aliasCandidates, List.map_filterMap, List.filterMap_map, Option.map_map]
    rfl
  rw [hcandidates, ← filter_zip_assign snake, ← hassign, List.zip_map', List.filter_map,
    map_aliased fun record => ((⟨nameOf record, signatureOf record⟩ : Named), identifierOf record)]
  rfl

/-- The identifier of a record with an alias is the first form of it that no earlier one has. -/
theorem isFirstFree_aliased {before after : List (ν × Text)} {record : ν} {word : Text}
    (hsplit : aliased signatureOf aliases records = before ++ (record, word) :: after) :
    IsFirstFree (sanitize false reserved word) (before.map fun p => identifierOf p.1)
      (identifierOf record) := by
  have hclaims := claimEach_aliased hassign
  rw [hsplit] at hclaims
  have hfree := isFirstFree_of_claimEach hclaims
  rw [List.append_nil] at hfree
  exact hfree

/-- All records with an alias have it as their identifier exactly if no two become the same. -/
theorem forall_aliased_iff :
    (∀ p ∈ aliased signatureOf aliases records, identifierOf p.1 = sanitize false reserved p.2) ↔
      ((aliased signatureOf aliases records).map fun p => sanitize false reserved p.2).Nodup := by
  have hdistinct {items : List (Named × Text)} :
      claimEach [] items = items ↔ (items.map Prod.snd).Nodup := by
    rw [claimEach_eq_self_iff, and_iff_left]
    exact fun item _ => List.not_mem_nil
  have hwords : (aliased signatureOf aliases records).map (fun p => sanitize false reserved p.2) =
      ((aliased signatureOf aliases records).map fun p =>
        ((⟨nameOf p.1, signatureOf p.1⟩ : Named), sanitize false reserved p.2)).map Prod.snd := by
    rw [List.map_map]
    rfl
  rw [hwords, ← hdistinct, claimEach_aliased hassign, List.map_inj_left]
  simp only [Prod.mk.injEq, true_and]

end

def IsTaken (reserved : List Text) (t : Text) : Prop := t ∈ keywords ∨ t ∈ reserved

/-- Two words that differ at most in the number of underscores in front, or of which one is taken
and the other is that one with an underscore after it. -/
inductive BecomeOne (reserved : List Text) (word other : Text) : Prop
  | same : collapseUnderscores word = collapseUnderscores other → BecomeOne reserved word other
  | first : IsTaken reserved (collapseUnderscores word) →
      collapseUnderscores other = collapseUnderscores word ++ "_" → BecomeOne reserved word other
  | second : IsTaken reserved (collapseUnderscores other) →
      collapseUnderscores word = collapseUnderscores other ++ "_" → BecomeOne reserved word other

section

variable {reserved : List Text}

theorem avoid_of_isTaken {t : Text} (h : IsTaken reserved t) : avoid reserved t = t ++ "_" := by
  rw [avoid, if_pos]
  rwa [Bool.or_eq_true, List.contains_iff_mem, List.contains_iff_mem]

theorem avoid_of_not_isTaken {t : Text} (h : ¬ IsTaken reserved t) : avoid reserved t = t := by
  rw [avoid, if_neg]
  rwa [Bool.or_eq_true, List.contains_iff_mem, List.contains_iff_mem]

/-- A word that is an identifier but for a line end loses that and underscores, and avoids what is
taken. -/
theorem sanitize_of_legal {word : Text} (h : Legal (Text.dropLineEnd word)) :
    sanitize false reserved word =
      avoid reserved (collapseUnderscores (Text.dropLineEnd word)) := by
  have hblank : ∀ d ∈ Text.dropLineEnd word, d.isBlank = false :=
    fun d hd => CodePoint.isBlank_of_isIdentifierPart (h.parts d hd)
  have htrim : Text.trim (source false word) = Text.dropLineEnd word :=
    Text.trim_eq_dropLineEnd hblank h.ne_nil
  rw [sanitize_eq, spelled_of_trim htrim h.ne_nil h.parts, guardDigit_of_legal h]

section

variable (hreserved : ∀ t ∈ reserved, EndsInLetter t)
include hreserved

theorem not_isTaken_underscore (t : Text) : ¬ IsTaken reserved (t ++ "_") := by
  obtain ⟨hkeyword, hword⟩ := not_taken_of_not_endsInLetter hreserved
    (not_endsInLetter_append (t := t) (s := "_") (List.cons_ne_nil _ _) (by decide))
  exact fun h => h.elim hkeyword hword

/-- Which two words are the same once what is taken is avoided. -/
theorem avoid_eq_iff {word other : Text} :
    avoid reserved word = avoid reserved other ↔
      word = other ∨ IsTaken reserved word ∧ other = word ++ "_" ∨
        IsTaken reserved other ∧ word = other ++ "_" := by
  have hneither (t s : Text) (hs : IsTaken reserved s) : s ≠ t ++ "_" := by
    rintro rfl
    exact not_isTaken_underscore hreserved t hs
  by_cases hw : IsTaken reserved word
  · rw [avoid_of_isTaken hw]
    by_cases ho : IsTaken reserved other
    · rw [avoid_of_isTaken ho, List.append_cancel_right_eq]
      simp [hneither word other ho, hneither other word hw]
    · rw [avoid_of_not_isTaken ho]
      have hne : word ≠ other := fun heq => ho (heq ▸ hw)
      simp [hw, ho, hne, eq_comm]
  · rw [avoid_of_not_isTaken hw]
    by_cases ho : IsTaken reserved other
    · rw [avoid_of_isTaken ho]
      have hne : word ≠ other := fun heq => hw (heq ▸ ho)
      simp [hw, ho, hne]
    · rw [avoid_of_not_isTaken ho]
      simp [hw, ho]

/-- Two words that are identifiers but for a line end become one exactly if they do without it. -/
theorem sanitize_eq_sanitize_iff {word other : Text} (hword : Legal (Text.dropLineEnd word))
    (hother : Legal (Text.dropLineEnd other)) :
    sanitize false reserved word = sanitize false reserved other ↔
      BecomeOne reserved (Text.dropLineEnd word) (Text.dropLineEnd other) := by
  rw [sanitize_of_legal hword, sanitize_of_legal hother, avoid_eq_iff hreserved]
  constructor
  · rintro (hsame | ⟨htaken, heq⟩ | ⟨htaken, heq⟩)
    · exact .same hsame
    · exact .first htaken heq
    · exact .second htaken heq
  · rintro (hsame | ⟨htaken, heq⟩ | ⟨htaken, heq⟩)
    · exact .inl hsame
    · exact .inr (.inl ⟨htaken, heq⟩)
    · exact .inr (.inr ⟨htaken, heq⟩)

end

end

end AbiBindings.Identifier
