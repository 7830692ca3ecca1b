import AbiBindings.Proofs.Identifier.Sanitize

/-!
Names that are identifiers already. What any text becomes is one of them, and none of the steps that
make identifiers changes it any more: it has no capital to be set off, nothing around it to be
trimmed, no digit and no second underscore in front, and it is not taken. So making an identifier
of an identifier gives the same one.
-/

namespace AbiBindings.Identifier

def reservedLists : List (List Text) :=
  [reservedForMethods, reservedForParams, reservedForRecords, reservedForContract]

/-- A name as identifiers are made: usable, with at most one underscore in front, and without
capitals where names are written in small letters. -/
structure Settled (snake : Bool) (reserved : List Text) (t : Text) : Prop where
  usable : Usable reserved t
  start : Text.startsWith t "__" = false
  small : snake = true → ∀ c ∈ t, c.isUpper = false

section

variable {snake : Bool} {reserved : List Text} {t : Text}

/-- A settled name stays as it is. -/
theorem Settled.sanitize_eq (h : Settled snake reserved t) : sanitize snake reserved t = t := by
  have hsource : source snake t = t := by
    rw [source]
    split
    · next hsnake => exact snakeCase_eq_self (h.small hsnake) h.usable.legal.parts
    · rfl
  have hblank : ∀ c ∈ t, c.isBlank = false :=
    fun c hc => CodePoint.isBlank_of_isIdentifierPart (h.usable.legal.parts c hc)
  have htrim : Text.trim (source snake t) = t := by
    rw [hsource, Text.trim_eq_self hblank]
  have hcollapse : collapseUnderscores t = t := by
    rw [collapseUnderscores, h.start]
    exact if_neg Bool.false_ne_true
  have havoid : avoid reserved t = t := by
    rw [avoid]
    apply if_neg
    rw [Bool.or_eq_true, List.contains_iff_mem, List.contains_iff_mem, not_or]
    exact ⟨h.usable.not_keyword, h.usable.not_reserved⟩
  rw [Identifier.sanitize_eq, spelled_of_trim htrim h.usable.legal.ne_nil h.usable.legal.parts,
    guardDigit_of_legal h.usable.legal, hcollapse, havoid]

variable (hreserved : ∀ word ∈ reserved, EndsInLetter word)
include hreserved

theorem settled_sanitize (snake : Bool) (name : Text) :
    Settled snake reserved (sanitize snake reserved name) where
  usable := usable_sanitize hreserved snake name
  start := startsWith_sanitize hreserved snake name
  small := by
    rintro rfl c hc
    exact isUpper_of_mem_sanitize hc

end

theorem endsInLetter_of_mem_reservedLists {reserved : List Text} (h : reserved ∈ reservedLists) :
    ∀ word ∈ reserved, EndsInLetter word := by
  simp only [reservedLists, List.mem_cons, List.not_mem_nil, or_false] at h
  rcases h with rfl | rfl | rfl | rfl
  · exact endsInLetter_of_mem_reservedForMethods
  · exact endsInLetter_of_mem_reservedForParams
  · exact endsInLetter_of_mem_reservedForRecords
  · exact endsInLetter_of_mem_reservedForContract

/-- Any text becomes a safe name, whatever is reserved: one with the form of an identifier, with at
most one underscore in front, neither a keyword nor reserved. That name becomes itself. -/
theorem sanitize_safe {reserved : List Text} (h : reserved ∈ reservedLists) (snake : Bool)
    (name : Text) :
    Legal (sanitize snake reserved name) ∧
      Text.startsWith (sanitize snake reserved name) "__" = false ∧
      sanitize snake reserved name ∉ keywords ∧
      sanitize snake reserved name ∉ reserved ∧
      sanitize snake reserved (sanitize snake reserved name) = sanitize snake reserved name := by
  have hsettled := settled_sanitize (endsInLetter_of_mem_reservedLists h) snake name
  exact ⟨hsettled.usable.legal, hsettled.start, hsettled.usable.not_keyword,
    hsettled.usable.not_reserved, hsettled.sanitize_eq⟩

/-- A name of two words, which become a reserved one. -/
theorem sanitize_safe_reserved :
    reservedForMethods ∈ reservedLists ∧
      sanitize true reservedForMethods "revertError" = "revert_error_" ∧
      Legal "revert_error_" ∧ Text.startsWith "revert_error_" "__" = false ∧
      ("revert_error_" : Text) ∉ keywords ∧ ("revert_error_" : Text) ∉ reservedForMethods ∧
      sanitize true reservedForMethods "revert_error_" = "revert_error_" := by
  have hmem : reservedForMethods ∈ reservedLists := List.mem_cons_self
  have hname : sanitize true reservedForMethods "revertError" = "revert_error_" := by decide
  have hsafe := sanitize_safe hmem true "revertError"
  rw [hname] at hsafe
  exact ⟨hmem, hname, hsafe⟩

end AbiBindings.Identifier
