import AbiBindings.Proofs.Identifier.Claim
import AbiBindings.Proofs.Identifier.SnakeCase
import AbiBindings.Proofs.Text.Run

/-!
What any text becomes. The result of `sanitize` has the form of an identifier, is neither a
keyword nor reserved and has at most one underscore in front. The words that are taken all end in a
letter, so neither an underscore nor a number at the end of a name makes it one of them: numbered
forms are as usable as the names that are numbered.
-/

namespace AbiBindings.Identifier

structure Legal (t : Text) : Prop where
  start : t.head?.any CodePoint.isIdentifierStart = true
  parts : ∀ c ∈ t, c.isIdentifierPart = true

structure Usable (reserved : List Text) (t : Text) : Prop where
  legal : Legal t
  not_keyword : t ∉ keywords
  not_reserved : t ∉ reserved

/-- The last code point is an ASCII letter. -/
def EndsInLetter (t : Text) : Prop := t.getLast?.any (fun c => c.isUpper || c.isLower) = true

instance (t : Text) : Decidable (EndsInLetter t) :=
  inferInstanceAs (Decidable (t.getLast?.any (fun c => c.isUpper || c.isLower) = true))

theorem endsInLetter_of_mem_keywords : ∀ t ∈ keywords, EndsInLetter t := by decide

theorem endsInLetter_of_mem_reservedForMethods : ∀ t ∈ reservedForMethods, EndsInLetter t := by
  decide

theorem endsInLetter_of_mem_reservedForParams : ∀ t ∈ reservedForParams, EndsInLetter t := by
  decide

theorem endsInLetter_of_mem_reservedForRecords : ∀ t ∈ reservedForRecords, EndsInLetter t := by
  decide

theorem endsInLetter_of_mem_reservedForContract : ∀ t ∈ reservedForContract, EndsInLetter t := by
  decide

/-- After underscores and digits a text does not end in a letter. -/
theorem not_endsInLetter_append {t s : Text} (hs : s ≠ [])
    (hparts : ∀ c ∈ s, c = CodePoint.ofChar '_' ∨ c.isDigit = true) :
    ¬ EndsInLetter (t ++ s) := by
  intro h
  rw [EndsInLetter, List.getLast?_append_of_ne_nil t hs, Option.any_eq_true] at h
  obtain ⟨c, hlast, hletter⟩ := h
  rcases hparts c (List.mem_of_getLast? hlast) with rfl | hdigit
  · exact absurd hletter (by decide)
  · rw [CodePoint.isUpper_of_isDigit hdigit, CodePoint.isLower_of_isDigit hdigit] at hletter
    exact absurd hletter (by decide)

/-- A name as it is before foreign code points are replaced. -/
def source (snake : Bool) (name : Text) : Text := if snake then snakeCase name else name

/-- A name of the code points of identifiers, before its start is looked at. -/
def spelled (snake : Bool) (name : Text) : Text :=
  let parts := replaceForeign (Text.trim (source snake name))
  if parts.isEmpty then "_" else parts

theorem sanitize_eq (snake : Bool) (reserved : List Text) (name : Text) :
    sanitize snake reserved name =
      avoid reserved (collapseUnderscores (guardDigit (spelled snake name))) := rfl

section

variable {c : CodePoint} (hc : c ≠ CodePoint.ofChar '_')

include hc

theorem mem_replaceForeign (t : Text) :
    c ∈ replaceForeign t ↔ c.isIdentifierPart = true ∧ c ∈ t := by
  rw [replaceForeign, List.mem_map]
  constructor
  · rintro ⟨d, hd, heq⟩
    split at heq
    · next hpart =>
      subst heq
      exact ⟨hpart, hd⟩
    · exact absurd heq.symm hc
  · rintro ⟨hpart, hmem⟩
    exact ⟨c, hmem, if_pos hpart⟩

theorem mem_spelled (snake : Bool) (name : Text) :
    c ∈ spelled snake name ↔ c.isIdentifierPart = true ∧ c ∈ source snake name := by
  have hparts : c ∈ replaceForeign (Text.trim (source snake name)) ↔
      c.isIdentifierPart = true ∧ c ∈ source snake name := by
    rw [mem_replaceForeign hc]
    apply and_congr_right
    intro hpart
    exact Text.mem_trim (CodePoint.isBlank_of_isIdentifierPart hpart)
  rw [← hparts, spelled]
  split
  · next hempty =>
    rw [List.isEmpty_iff.mp hempty]
    exact iff_of_false (fun h => hc (List.mem_singleton.mp h)) List.not_mem_nil
  · rfl

theorem mem_guardDigit (t : Text) : c ∈ guardDigit t ↔ c ∈ t := by
  rw [guardDigit]
  split
  · rw [List.mem_cons, or_iff_right hc]
  · rfl

theorem mem_collapseUnderscores (t : Text) : c ∈ collapseUnderscores t ↔ c ∈ t := by
  rw [collapseUnderscores]
  split
  · rw [List.mem_cons, or_iff_right hc]
    exact Text.mem_dropWhile (p := fun d => d == CodePoint.ofChar '_')
      (beq_eq_false_iff_ne.mpr hc)
  · rfl

theorem mem_avoid (reserved : List Text) (t : Text) : c ∈ avoid reserved t ↔ c ∈ t := by
  rw [avoid]
  split
  · have hlast : c ∉ ("_" : Text) := fun h => hc (List.mem_singleton.mp h)
    rw [List.mem_append, or_iff_left hlast]
  · rfl

/-- Besides underscores, the identifier of a name shows the code points of the name that an
identifier can hold. -/
theorem mem_sanitize (snake : Bool) (reserved : List Text) (name : Text) :
    c ∈ sanitize snake reserved name ↔ c.isIdentifierPart = true ∧ c ∈ source snake name := by
  rw [sanitize_eq, mem_avoid hc, mem_collapseUnderscores hc, mem_guardDigit hc, mem_spelled hc]

end

/-- An identifier is made of what identifiers can hold, whatever words are reserved. -/
theorem isIdentifierPart_of_mem_sanitize {snake : Bool} {reserved : List Text} {name : Text}
    {c : CodePoint} (hc : c ∈ sanitize snake reserved name) : c.isIdentifierPart = true := by
  by_cases hne : c = CodePoint.ofChar '_'
  · rw [hne]
    rfl
  · exact ((mem_sanitize hne snake reserved name).mp hc).1

theorem spelled_ne_nil (snake : Bool) (name : Text) : spelled snake name ≠ [] := by
  rw [spelled]
  split
  · exact List.cons_ne_nil _ _
  · next hempty => exact fun h => hempty (List.isEmpty_iff.mpr h)

theorem start_guardDigit {t : Text} (hne : t ≠ []) (hparts : ∀ c ∈ t, c.isIdentifierPart = true) :
    (guardDigit t).head?.any CodePoint.isIdentifierStart = true := by
  rw [guardDigit]
  split
  · rfl
  · next hdigit =>
    obtain ⟨c, rest, rfl⟩ := List.exists_cons_of_ne_nil hne
    have hpart := hparts c List.mem_cons_self
    rw [CodePoint.isIdentifierPart, Bool.or_eq_true] at hpart
    exact hpart.resolve_right hdigit

theorem start_collapseUnderscores {t : Text}
    (h : t.head?.any CodePoint.isIdentifierStart = true) :
    (collapseUnderscores t).head?.any CodePoint.isIdentifierStart = true := by
  rw [collapseUnderscores]
  split
  · rfl
  · exact h

theorem start_append {p : CodePoint → Bool} {t : Text} (h : t.head?.any p = true) (s : Text) :
    (t ++ s).head?.any p = true := by
  cases t with
  | nil => cases h
  | cons c rest => exact h

theorem startsWith_underscores {t : Text} : Text.startsWith t "__" = true ↔
    ∃ rest, t = CodePoint.ofChar '_' :: CodePoint.ofChar '_' :: rest := by
  rw [Text.startsWith, List.isPrefixOf_iff_prefix]
  constructor
  · rintro ⟨rest, heq⟩
    exact ⟨rest, heq.symm⟩
  · rintro ⟨rest, rfl⟩
    exact ⟨rest, rfl⟩

/-- What comes after a name matters to its start only if the name is the underscore. -/
theorem startsWith_append {t : Text} (hne : t ≠ []) (hbare : t ≠ "_") (s : Text) :
    Text.startsWith (t ++ s) "__" = Text.startsWith t "__" := by
  match t, hne, hbare with
  | [c], _, hbare =>
    have hc : c ≠ CodePoint.ofChar '_' := fun h => hbare (by rw [h]; rfl)
    have hshort : ¬ Text.startsWith [c] "__" = true := by
      rw [startsWith_underscores]
      rintro ⟨rest, heq⟩
      exact hc (List.cons.inj heq).1
    have hlong : ¬ Text.startsWith ([c] ++ s) "__" = true := by
      rw [startsWith_underscores]
      rintro ⟨rest, heq⟩
      exact hc (List.cons.inj heq).1
    rw [Bool.eq_false_iff.mpr hshort, Bool.eq_false_iff.mpr hlong]
  | c :: d :: rest, _, _ => rfl

theorem startsWith_collapseUnderscores (t : Text) :
    Text.startsWith (collapseUnderscores t) "__" = false := by
  rw [Bool.eq_false_iff, ne_eq, startsWith_underscores]
  rintro ⟨rest, heq⟩
  rw [collapseUnderscores] at heq
  split at heq
  · have hrest := List.tail_eq_of_cons_eq heq
    have hahead := Text.notAhead_dropWhile (p := fun d => d == CodePoint.ofChar '_') t
    rw [hrest, Text.notAhead_cons] at hahead
    exact absurd hahead (by decide)
  · next hstart => exact hstart (startsWith_underscores.mpr ⟨rest, heq⟩)

section

variable {reserved : List Text} (hreserved : ∀ t ∈ reserved, EndsInLetter t)

include hreserved

theorem not_taken_of_not_endsInLetter {t : Text} (ht : ¬ EndsInLetter t) :
    t ∉ keywords ∧ t ∉ reserved :=
  ⟨fun h => ht (endsInLetter_of_mem_keywords t h), fun h => ht (hreserved t h)⟩

theorem avoid_not_taken (t : Text) : avoid reserved t ∉ keywords ∧ avoid reserved t ∉ reserved := by
  rw [avoid]
  split
  · apply not_taken_of_not_endsInLetter hreserved
    apply not_endsInLetter_append (List.cons_ne_nil _ _)
    intro c hc
    exact .inl (List.mem_singleton.mp hc)
  · next hfree =>
    rw [Bool.or_eq_true, List.contains_iff_mem, List.contains_iff_mem, not_or] at hfree
    exact hfree

theorem startsWith_avoid {t : Text} (hne : t ≠ []) :
    Text.startsWith (avoid reserved t) "__" = Text.startsWith t "__" := by
  rw [avoid]
  split
  · next htaken =>
    rw [Bool.or_eq_true, List.contains_iff_mem, List.contains_iff_mem] at htaken
    have hbare : t ≠ "_" := by
      rintro rfl
      obtain ⟨hkeyword, hword⟩ :=
        not_taken_of_not_endsInLetter hreserved (t := "_") (by decide)
      exact htaken.elim hkeyword hword
    exact startsWith_append hne hbare _
  · rfl

/-- Any text becomes a usable name. -/
theorem usable_sanitize (snake : Bool) (name : Text) :
    Usable reserved (sanitize snake reserved name) := by
  have hparts : ∀ c ∈ spelled snake name, c.isIdentifierPart = true := by
    intro c hc
    by_cases hne : c = CodePoint.ofChar '_'
    · rw [hne]
      rfl
    · exact ((mem_spelled hne snake name).mp hc).1
  have hstart := start_collapseUnderscores (start_guardDigit (spelled_ne_nil snake name) hparts)
  obtain ⟨hkeyword, hword⟩ :=
    avoid_not_taken hreserved (collapseUnderscores (guardDigit (spelled snake name)))
  refine ⟨⟨?_, ?_⟩, hkeyword, hword⟩
  · rw [sanitize_eq, avoid]
    split
    · exact start_append hstart _
    · exact hstart
  · exact fun c => isIdentifierPart_of_mem_sanitize

theorem sanitize_ne_nil (snake : Bool) (name : Text) : sanitize snake reserved name ≠ [] := by
  intro h
  have hstart := (usable_sanitize hreserved snake name).legal.start
  rw [h] at hstart
  exact absurd hstart (by decide)

/-- The identifier of a name has at most one underscore in front. -/
theorem startsWith_sanitize (snake : Bool) (name : Text) :
    Text.startsWith (sanitize snake reserved name) "__" = false := by
  have hne : collapseUnderscores (guardDigit (spelled snake name)) ≠ [] := by
    intro h
    have hnone : ∀ t ∈ ([] : List Text), EndsInLetter t := fun t ht => absurd ht List.not_mem_nil
    apply sanitize_ne_nil hnone snake name
    rw [sanitize_eq, h]
    rfl
  rw [sanitize_eq, startsWith_avoid hreserved hne]
  exact startsWith_collapseUnderscores _

/-- A usable name stays usable with a number after it. -/
theorem Usable.numbered {t : Text} (h : Usable reserved t) (number : Nat) :
    Usable reserved (numbered t number) := by
  cases number with
  | zero => exact h
  | succ number =>
    have hnumber : Identifier.numbered [] (number + 1) ≠ [] := List.cons_ne_nil _ _
    have hend : ¬ EndsInLetter (Identifier.numbered t (number + 1)) := by
      rw [numbered_eq_append]
      apply not_endsInLetter_append hnumber
      intro c hc
      exact (mem_numbered hc).resolve_left List.not_mem_nil
    obtain ⟨hkeyword, hword⟩ := not_taken_of_not_endsInLetter hreserved hend
    refine ⟨⟨?_, ?_⟩, hkeyword, hword⟩
    · rw [numbered_eq_append]
      exact start_append h.legal.start _
    · intro c hc
      rcases mem_numbered hc with hc | rfl | hc
      · exact h.legal.parts c hc
      · rfl
      · exact CodePoint.isIdentifierPart_of_isDigit hc

end

theorem isUpper_of_mem_sanitize {reserved : List Text} {name : Text} {c : CodePoint}
    (hc : c ∈ sanitize true reserved name) : c.isUpper = false := by
  by_cases hne : c = CodePoint.ofChar '_'
  · rw [hne]
    rfl
  · exact isUpper_of_mem_snakeCase ((mem_sanitize hne true reserved name).mp hc).2

theorem isUpper_of_mem_numbered {t : Text} {number : Nat} {c : CodePoint}
    (h : ∀ d ∈ t, d.isUpper = false) (hc : c ∈ numbered t number) : c.isUpper = false := by
  rcases mem_numbered hc with hc | rfl | hdigit
  · exact h c hc
  · rfl
  · exact CodePoint.isUpper_of_isDigit hdigit

theorem Legal.ne_nil {t : Text} (h : Legal t) : t ≠ [] := by
  rintro rfl
  cases h.start

theorem replaceForeign_eq_self {t : Text} (h : ∀ c ∈ t, c.isIdentifierPart = true) :
    replaceForeign t = t := by
  rw [replaceForeign]
  apply (List.map_congr_left fun c hc => if_pos (h c hc)).trans
  exact List.map_id t

/-- A name that needs trimming only is spelled as it is. -/
theorem spelled_of_trim {snake : Bool} {name t : Text} (htrim : Text.trim (source snake name) = t)
    (hne : t ≠ []) (h : ∀ c ∈ t, c.isIdentifierPart = true) : spelled snake name = t := by
  simp only [spelled, htrim, replaceForeign_eq_self h]
  rw [if_neg (mt List.isEmpty_iff.mp hne)]

theorem guardDigit_of_legal {t : Text} (h : Legal t) : guardDigit t = t := by
  rw [guardDigit]
  apply if_neg
  obtain ⟨c, rest, rfl⟩ := List.exists_cons_of_ne_nil h.ne_nil
  have hstart : c.isIdentifierStart = true := h.start
  change ¬ c.isDigit = true
  rw [CodePoint.isDigit_of_isIdentifierStart hstart]
  exact Bool.false_ne_true

section

variable {c : CodePoint} {rest : Text} (hdigit : c.isDigit = false) (hne : c ≠ CodePoint.ofChar '_')
include hdigit hne

/-- A text that starts with a letter comes of itself alone when starts are looked at. -/
theorem collapseUnderscores_guardDigit_eq_iff {t : Text} :
    collapseUnderscores (guardDigit t) = c :: rest ↔ t = c :: rest := by
  constructor
  · intro h
    have hguard : guardDigit t = c :: rest := by
      rw [collapseUnderscores] at h
      split at h
      · exact absurd (List.cons.inj h).1.symm hne
      · exact h
    rw [guardDigit] at hguard
    split at hguard
    · exact absurd (List.cons.inj hguard).1.symm hne
    · exact hguard
  · rintro rfl
    have hguard : guardDigit (c :: rest) = c :: rest := by
      rw [guardDigit]
      apply if_neg
      change ¬ c.isDigit = true
      rw [hdigit]
      decide
    rw [hguard, collapseUnderscores]
    apply if_neg
    rw [startsWith_underscores]
    rintro ⟨others, heq⟩
    exact hne (List.cons.inj heq).1

/-- Which names a free word is the identifier of. -/
theorem sanitize_eq_iff {snake : Bool} {reserved : List Text} {name : Text}
    (hletter : EndsInLetter (c :: rest)) (hkeyword : c :: rest ∉ keywords)
    (hreserved : c :: rest ∉ reserved) :
    sanitize snake reserved name = c :: rest ↔
      replaceForeign (Text.trim (source snake name)) = c :: rest := by
  have havoid (t : Text) : avoid reserved t = c :: rest ↔ t = c :: rest := by
    rw [avoid]
    split
    · next htaken =>
      constructor
      · intro h
        rw [← h] at hletter
        exact absurd hletter (not_endsInLetter_append (List.cons_ne_nil _ _) (by decide))
      · rintro rfl
        simp [hkeyword, hreserved] at htaken
    · exact Iff.rfl
  rw [sanitize_eq, havoid, collapseUnderscores_guardDigit_eq_iff hdigit hne, spelled]
  split
  · next hempty =>
    constructor
    · intro h
      exact absurd (List.cons.inj h).1.symm hne
    · intro h
      rw [h] at hempty
      cases hempty
  · exact Iff.rfl

end

end AbiBindings.Identifier
