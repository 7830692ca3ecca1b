import AbiBindings.Proofs.AbiType.Canonical
import AbiBindings.Proofs.Text.Parentheses
import AbiBindings.Signature

/-!
What a signature tells. The canonical spelling of a type has all its parentheses in pairs, so the
argument list of a signature can be found from its end even where the name has parentheses and
commas of its own. Two signatures are the same only for one name and the same argument types, up
to the names of components.
-/

namespace AbiBindings

open Text (Closed)

theorem Elementary.Supported.closed {kind : Elementary} (h : kind.Supported) :
    Closed kind.canonical := by
  obtain ⟨word, digits, width, heq, hnamed, hwidth⟩ := h.named
  have hsmall : ∀ c ∈ kind.canonical, c.isLower = true ∨ c.isDigit = true := by
    intro c hc
    rw [heq, List.mem_append] at hc
    exact hc.imp (hnamed.isLower.2 c) (hwidth.isDigit c)
  apply Text.closed_of_not_mem
  · intro hmem
    exact absurd (hsmall _ hmem) (by decide)
  · intro hmem
    exact absurd (hsmall _ hmem) (by decide)

namespace AbiType

theorem closed_ofNat (n : Nat) : Closed (Text.ofNat n) := by
  apply Text.closed_of_not_mem
  · intro hmem
    exact absurd (Text.isDigit_of_mem_ofNat hmem) (by decide)
  · intro hmem
    exact absurd (Text.isDigit_of_mem_ofNat hmem) (by decide)

theorem Supported.closed {type : AbiType} (h : type.Supported) : Closed type.canonical := by
  have hopen : Closed "[" := Text.closed_of_not_mem (by decide) (by decide)
  have hclose : Closed "]" := Text.closed_of_not_mem (by decide) (by decide)
  induction type using AbiType.induct with
  | elementary kind =>
    rw [Supported] at h
    exact h.closed
  | array length item ih =>
    cases length with
    | none =>
      rw [Supported] at h
      rw [canonical]
      exact (ih h).append (hopen.append hclose)
    | some length =>
      rw [Supported] at h
      obtain ⟨⟨n, rfl, -⟩, hitem⟩ := h
      rw [canonical, Text.ofInt_natCast]
      exact (((ih hitem).append hopen).append (closed_ofNat n)).append hclose
  | tuple parts ih =>
    rw [supported_tuple] at h
    rw [canonical, canonicals_eq_map]
    apply Closed.parenthesize
    apply Text.closed_join
    intro spelling hmem
    obtain ⟨type, htype, rfl⟩ := List.mem_map.mp hmem
    obtain ⟨part, hpart, rfl⟩ := List.mem_map.mp htype
    exact ih part hpart (h part hpart)

theorem closed_join_canonical {types : List AbiType} (h : ∀ type ∈ types, type.Supported) :
    Closed (Text.join "," (types.map canonical)) := by
  apply Text.closed_join
  intro spelling hmem
  obtain ⟨type, htype, rfl⟩ := List.mem_map.mp hmem
  exact (h type htype).closed

theorem argumentList_eq (types : List AbiType) :
    argumentList types = (unnamedTuple types).canonical := by
  rw [unnamedTuple, canonical_tuple, typesOf, List.map_map]
  exact congrArg argumentList (List.map_id types).symm

theorem unnamedTuple_injective : Function.Injective unnamedTuple := by
  intro types types' h
  have hparts := tuple.inj h
  have htypes := congrArg (List.map Prod.snd) hparts
  simpa [Function.comp_def] using htypes

theorem argumentList_eq_iff {types types' : List AbiType} (h : ∀ type ∈ types, type.Supported)
    (h' : ∀ type ∈ types', type.Supported) :
    argumentList types = argumentList types' ↔ types.map eraseNames = types'.map eraseNames := by
  rw [argumentList_eq, argumentList_eq,
    canonical_eq_iff (supported_unnamedTuple.mpr h) (supported_unnamedTuple.mpr h'),
    eraseNames_unnamedTuple, eraseNames_unnamedTuple, unnamedTuple_injective.eq_iff]

end AbiType

namespace Signature

open AbiType (Supported eraseNames argumentList argumentList_eq_iff closed_join_canonical)

/-- Signatures are equal exactly for one name and argument types that are pairwise the same but
for the names of components. The names may be any text. -/
theorem canonical_eq_iff {name name' : Text} {types types' : List AbiType}
    (h : ∀ type ∈ types, type.Supported) (h' : ∀ type ∈ types', type.Supported) :
    canonical name types = canonical name' types' ↔
      name = name' ∧ types.map eraseNames = types'.map eraseNames := by
  rw [← argumentList_eq_iff h h']
  constructor
  · intro heq
    obtain ⟨hname, hlist⟩ := Text.append_parenthesize_inj (closed_join_canonical h)
      (closed_join_canonical h') heq
    exact ⟨hname, by rw [argumentList, argumentList, hlist]⟩
  · rintro ⟨rfl, hlist⟩
    rw [canonical, canonical, hlist]

end Signature

end AbiBindings
