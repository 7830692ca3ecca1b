import AbiBindings.Proofs.Identifier.Words

/-!
The identifiers of parameters. Whatever the names in a list of parameters are, their identifiers are
claimed one after the other, so they all differ. Each starts with a small letter, goes on with small
letters, digits and underscores, and is free to be used in the head of a method.
-/

namespace AbiBindings.Identifier

/-- An ASCII small letter, a digit or the underscore. -/
def isSmallPart (c : CodePoint) : Bool := c.isLower || c.isDigit || c == CodePoint.ofChar '_'

/-- A name that a parameter can have: neither a keyword nor used by methods themselves. -/
structure IsParamName (t : Text) : Prop where
  start : t.head?.any CodePoint.isLower = true
  parts : ∀ c ∈ t, isSmallPart c = true
  not_keyword : t ∉ keywords
  not_reserved : t ∉ reservedForParams

instance (t : Text) : Decidable (IsParamName t) :=
  decidable_of_iff (t.head?.any CodePoint.isLower = true ∧ (∀ c ∈ t, isSmallPart c = true) ∧
      t ∉ keywords ∧ t ∉ reservedForParams)
    ⟨fun ⟨hstart, hparts, hkeyword, hreserved⟩ => ⟨hstart, hparts, hkeyword, hreserved⟩,
      fun h => ⟨h.start, h.parts, h.not_keyword, h.not_reserved⟩⟩

/-- Names that the parameters of one list can have: they all differ. -/
structure AreParamNames (identifiers : List Text) : Prop where
  nodup : identifiers.Nodup
  names : ∀ identifier ∈ identifiers, IsParamName identifier

theorem AreParamNames.perm {identifiers others : List Text} (h : AreParamNames identifiers)
    (hperm : identifiers.Perm others) : AreParamNames others :=
  ⟨hperm.nodup_iff.mp h.nodup, fun identifier hmem => h.names identifier (hperm.mem_iff.mpr hmem)⟩

theorem isSmallPart_iff {c : CodePoint} :
    isSmallPart c = true ↔ c.isIdentifierPart = true ∧ c.isUpper = false := by
  have hunderscore : c = CodePoint.ofChar '_' ↔ c.val = 95 :=
    ⟨fun h => by rw [h]; rfl, fun h => CodePoint.ext h⟩
  rw [isSmallPart, Bool.or_eq_true, Bool.or_eq_true, beq_iff_eq, hunderscore]
  simp only [CodePoint.isIdentifierPart, CodePoint.isIdentifierStart, CodePoint.isUpper,
    CodePoint.isLower, CodePoint.isDigit, Bool.or_eq_true, Bool.and_eq_true,
    Bool.and_eq_false_iff, decide_eq_true_eq, decide_eq_false_iff_not]
  omega

theorem isSmallPart_of_isDigit {c : CodePoint} (h : c.isDigit = true) : isSmallPart c = true := by
  rw [isSmallPart, h, Bool.or_true, Bool.true_or]

theorem isLower_of_isSmallPart {c : CodePoint} (h : isSmallPart c = true)
    (hdigit : c.isDigit = false) (hne : c ≠ CodePoint.ofChar '_') : c.isLower = true := by
  rw [isSmallPart, hdigit, beq_eq_false_iff_ne.mpr hne, Bool.or_false, Bool.or_false] at h
  exact h

/-- A name in snake case with underscores for foreign code points has no capitals. -/
theorem isSmallPart_of_mem_replaceForeign {name : Text} {c : CodePoint}
    (hc : c ∈ replaceForeign (snakeCase name)) : isSmallPart c = true := by
  by_cases hne : c = CodePoint.ofChar '_'
  · rw [hne]
    rfl
  · obtain ⟨hpart, hmem⟩ := (mem_replaceForeign hne (snakeCase name)).mp hc
    exact isSmallPart_iff.mpr ⟨hpart, isUpper_of_mem_snakeCase hmem⟩

namespace IsParamName

variable {t : Text} (h : IsParamName t)
include h

theorem isWord : IsWord t := fun c hc => (isSmallPart_iff.mp (h.parts c hc)).1

theorem usable : Usable reservedForParams t := by
  refine ⟨⟨?_, h.isWord⟩, h.not_keyword, h.not_reserved⟩
  cases t with
  | nil => cases h.start
  | cons c rest =>
    have hlower : c.isLower = true := h.start
    change c.isIdentifierStart = true
    rw [CodePoint.isIdentifierStart, hlower, Bool.or_true, Bool.true_or]

theorem numbered (number : Nat) : IsParamName (numbered t number) := by
  have husable := h.usable.numbered endsInLetter_of_mem_reservedForParams number
  refine ⟨?_, ?_, husable.not_keyword, husable.not_reserved⟩
  · rw [numbered_eq_append]
    exact start_append h.start _
  · intro c hc
    rcases mem_numbered hc with hc | rfl | hdigit
    · exact h.parts c hc
    · rfl
    · exact isSmallPart_of_isDigit hdigit

/-- A number may also follow at once. -/
theorem append_ofNat (n : Nat) : IsParamName (t ++ Text.ofNat n) := by
  have hdigits : ∀ c ∈ Text.ofNat n, c = CodePoint.ofChar '_' ∨ c.isDigit = true :=
    fun c hc => .inr (Text.isDigit_of_mem_ofNat hc)
  have hend : ¬ EndsInLetter (t ++ Text.ofNat n) :=
    not_endsInLetter_append (Text.ofNat_ne_nil n) hdigits
  obtain ⟨hkeyword, hreserved⟩ :=
    not_taken_of_not_endsInLetter endsInLetter_of_mem_reservedForParams hend
  refine ⟨start_append h.start _, ?_, hkeyword, hreserved⟩
  rw [List.forall_mem_append]
  exact ⟨h.parts, fun c hc => isSmallPart_of_isDigit (Text.isDigit_of_mem_ofNat hc)⟩

end IsParamName

/-- A word that starts with a letter is its own identifier, unless it is taken. -/
theorem sanitize_word {reserved : List Text} {c : CodePoint} {rest : Text}
    (h : IsWord (c :: rest)) (hdigit : c.isDigit = false) (hne : c ≠ CodePoint.ofChar '_') :
    sanitize false reserved (c :: rest) = avoid reserved (c :: rest) := by
  have htrim : Text.trim (c :: rest) = c :: rest :=
    Text.trim_eq_self fun d hd => CodePoint.isBlank_of_isIdentifierPart (h d hd)
  have hspelled : spelled false (c :: rest) = c :: rest :=
    spelled_of_trim htrim (List.cons_ne_nil c rest) h
  rw [sanitize_eq, hspelled, (collapseUnderscores_guardDigit_eq_iff hdigit hne).mpr rfl]

theorem isParamName_avoid {c : CodePoint} {rest : Text} (hstart : c.isLower = true)
    (hparts : ∀ d ∈ c :: rest, isSmallPart d = true) :
    IsParamName (avoid reservedForParams (c :: rest)) := by
  obtain ⟨hkeyword, hreserved⟩ :=
    avoid_not_taken endsInLetter_of_mem_reservedForParams (c :: rest)
  refine ⟨?_, ?_, hkeyword, hreserved⟩
  · rw [avoid]
    split
    · exact hstart
    · exact hstart
  · intro d hd
    by_cases hne : d = CodePoint.ofChar '_'
    · rw [hne]
      rfl
    · exact hparts d ((mem_avoid hne reservedForParams (c :: rest)).mp hd)

section

variable {kind : Text} (hkind : IsParamName kind)
include hkind

/-- Any name of a parameter has a candidate that a parameter can have. -/
theorem isParamName_paramCandidate (index : Nat) (name : Text) :
    IsParamName (paramCandidate kind index name) := by
  have hparts : ∀ c ∈ (replaceForeign (snakeCase name)).dropWhile (· == CodePoint.ofChar '_'),
      isSmallPart c = true := fun c hc =>
    isSmallPart_of_mem_replaceForeign ((List.dropWhile_sublist _).mem hc)
  have hahead := Text.notAhead_dropWhile (p := (· == CodePoint.ofChar '_'))
    (replaceForeign (snakeCase name))
  rw [paramCandidate]
  cases hbase : (replaceForeign (snakeCase name)).dropWhile (· == CodePoint.ofChar '_') with
  | nil => exact hkind.append_ofNat index
  | cons c rest =>
    rw [hbase] at hparts hahead
    rw [Text.notAhead_cons, beq_eq_false_iff_ne] at hahead
    cases hdigit : c.isDigit with
    | true =>
      have htaken : ((c :: rest).isEmpty || (c :: rest).head?.any CodePoint.isDigit) = true :=
        hdigit
      rw [if_pos htaken]
      exact hkind.append_ofNat index
    | false =>
      have hfree : ¬ ((c :: rest).isEmpty || (c :: rest).head?.any CodePoint.isDigit) = true := by
        change ¬ c.isDigit = true
        rw [hdigit]
        decide
      have hword : IsWord (c :: rest) := fun d hd => (isSmallPart_iff.mp (hparts d hd)).1
      have hlower := isLower_of_isSmallPart (hparts c List.mem_cons_self) hdigit hahead
      rw [if_neg hfree, sanitize_word hword hdigit hahead]
      exact isParamName_avoid hlower hparts

omit hkind in
/-- The identifiers of parameters are claims of their candidates, one after the other. -/
theorem assignParamsFrom_eq (index : Nat) (taken names : List Text) :
    assignParamsFrom kind index taken names =
      (claimEach taken ((names.zipIdx index).map fun p =>
        (p.1, paramCandidate kind p.2 p.1))).map Prod.snd := by
  induction names generalizing index taken with
  | nil => rfl
  | cons name rest ih =>
    simp only [assignParamsFrom, enter, ih]
    rfl

omit hkind in
theorem length_assignParamsFrom (index : Nat) (taken names : List Text) :
    (assignParamsFrom kind index taken names).length = names.length := by
  induction names generalizing index taken with
  | nil => rfl
  | cons name rest ih => simp only [assignParamsFrom, List.length_cons, ih]

/-- The parameters of a list have names of their own, and these stay free to be used. -/
theorem areParamNames_assignParams (names : List Text) :
    AreParamNames (assignParams kind names) := by
  rw [assignParams, assignParamsFrom_eq]
  refine ⟨nodup_claimEach [] _, ?_⟩
  rw [List.forall_mem_map]
  intro p hp
  obtain ⟨candidate, k, hmem, heq, -⟩ := exists_numbered_of_mem_claimEach hp
  obtain ⟨⟨name, index⟩, -, hcandidate⟩ := List.mem_map.mp hmem
  cases hcandidate
  rw [heq]
  exact (isParamName_paramCandidate hkind index _).numbered k

end

example : assignParams "arg" ["self", "_Self", "", "1", "class"] =
    [("self_" : Text), "self__1", "arg2", "arg3", "class_"] := by decide

end AbiBindings.Identifier
