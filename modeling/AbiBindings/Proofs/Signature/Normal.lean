import AbiBindings.Proofs.AbiType.Signature

/-!
Canonical forms of written signatures. A canonical form is a name followed by the canonical
spelling of a list of argument types, without blanks, so it is a written signature itself, and
its canonical form is again the same.
-/

namespace AbiBindings.Signature

open Outcome
open AbiType (Supported argumentList argumentList_eq eraseNames unnamedTuple)

theorem isBlank_of_isNamePart {c : CodePoint} (h : isNamePart c = true) : c.isBlank = false := by
  simp only [isNamePart, isNameStart, Bool.or_eq_true, beq_iff_eq] at h
  rcases h with (hstart | hdollar) | hdigit
  · exact CodePoint.isBlank_of_isIdentifierPart (by simp [CodePoint.isIdentifierPart, hstart])
  · simp [CodePoint.isBlank, hdollar]
  · exact CodePoint.isBlank_of_isDigit hdigit

structure IsName (name : Text) : Prop where
  start : name.head?.any isNameStart = true
  part : ∀ c ∈ name, isNamePart c = true

/-- The list of types in parentheses that types are spelled as. -/
theorem argumentList_bounds (types : List AbiType) :
    (argumentList types).head? = some (CodePoint.ofChar '(') ∧
      (argumentList types).getLast? = some (CodePoint.ofChar ')') := by
  rw [argumentList]
  constructor
  · rfl
  · rw [List.getLast?_append]
    rfl

theorem isBlank_of_mem_argumentList {types : List AbiType} (h : ∀ type ∈ types, type.Supported) :
    ∀ c ∈ argumentList types, c.isBlank = false := by
  rw [argumentList_eq]
  exact ((AbiType.supported_unnamedTuple.mpr h).derives_canonical .null).isBlank_eq_false

theorem split?_canonical {name : Text} {types : List AbiType} (hname : IsName name)
    (h : ∀ type ∈ types, type.Supported) :
    split? (canonical name types) = some (name, argumentList types) := by
  have hblank : ∀ c ∈ canonical name types, c.isBlank = false := by
    rw [canonical, List.forall_mem_append]
    exact ⟨fun c hc => isBlank_of_isNamePart (hname.part c hc), isBlank_of_mem_argumentList h⟩
  obtain ⟨hhead, hlast⟩ := argumentList_bounds types
  have hahead : Text.NotAhead isNamePart (argumentList types) := by
    rw [Text.NotAhead, hhead]
    rfl
  have hstop : Text.NotAhead CodePoint.isBlank (argumentList types) := by
    rw [Text.NotAhead, hhead]
    rfl
  have hline : CodePoint.ofChar '\n' ∉ argumentList types := by
    intro hmem
    exact absurd (isBlank_of_mem_argumentList h _ hmem) (by decide)
  rw [split?, Text.trim_eq_self hblank, canonical, Text.takeWhile_run hname.part hahead,
    Text.dropWhile_run hname.part hahead, Text.dropWhile_eq_self hstop]
  simp [hname.start, hhead, hlast, hline]

/-- What a written signature is split into. -/
theorem isName_of_split? {signature name arguments : Text}
    (h : split? signature = some (name, arguments)) : IsName name := by
  simp only [split?] at h
  split at h
  · next hshape =>
    obtain ⟨rfl, -⟩ := Prod.mk.inj (Option.some.inj h)
    simp only [Bool.and_eq_true] at hshape
    exact ⟨hshape.1.1.1, fun c => Text.of_mem_takeWhile⟩
  · cases h

/-- A written signature has a canonical form if it is a name and a list of types. -/
theorem normalize_eq_ok {signature form : Text} (h : normalize signature = .ok form) :
    ∃ name types, IsName name ∧ (∀ type ∈ types, type.Supported) ∧
      form = canonical name types := by
  rw [normalize] at h
  split at h
  · cases h
  · next name arguments hsplit =>
    obtain ⟨type, htype, h⟩ := bind_eq_ok.mp h
    have hsupported : type.Supported := (AbiType.parse_eq_ok.mp htype).2
    split at h
    · next components =>
      have hparts := AbiType.supported_tuple.mp hsupported
      refine ⟨name, AbiType.typesOf components, isName_of_split? hsplit, ?_,
        (Except.ok.inj h).symm⟩
      rw [AbiType.typesOf, List.forall_mem_map]
      exact hparts
    · cases h

/-- The signature of a name and of types that were read is its own canonical form. -/
theorem normalize_canonical {name : Text} {types : List AbiType} (hname : IsName name)
    (h : ∀ type ∈ types, type.Supported) :
    normalize (canonical name types) = .ok (canonical name types) := by
  have hsupported := AbiType.supported_unnamedTuple.mpr h
  have hblanks : Text.withoutBlanks (argumentList types) = argumentList types := by
    rw [Text.withoutBlanks, List.filter_eq_self]
    intro c hc
    rw [isBlank_of_mem_argumentList h c hc]
    rfl
  have hread : AbiType.parseText (argumentList types) .null none =
      .ok (unnamedTuple types).eraseNames := by
    rw [argumentList_eq]
    exact AbiType.parse_canonical_of_supported hsupported .null none
  rw [AbiType.eraseNames_unnamedTuple] at hread
  have hspelled : argumentList (types.map eraseNames) = argumentList types := by
    rw [argumentList_eq, argumentList_eq, ← AbiType.eraseNames_unnamedTuple,
      AbiType.canonical_eraseNames]
  rw [normalize, split?_canonical hname h]
  simp only [hblanks]
  rw [hread, ok_bind]
  have htypes : AbiType.typesOf ((types.map eraseNames).map fun type => ([], type)) =
      types.map eraseNames := by
    rw [AbiType.typesOf, List.map_map]
    exact List.map_id _
  simp only [unnamedTuple, pure_eq_ok, Except.ok.injEq]
  rw [htypes, canonical, canonical, hspelled]

/-- The canonical form of a written signature is a written signature with the same canonical
form. -/
theorem normalize_normalize {signature form : Text} (h : normalize signature = .ok form) :
    normalize form = .ok form := by
  obtain ⟨name, types, hname, hsupported, rfl⟩ := normalize_eq_ok h
  exact normalize_canonical hname hsupported

end AbiBindings.Signature
