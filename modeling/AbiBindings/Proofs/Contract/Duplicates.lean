import AbiBindings.Proofs.AbiType.Signature
import AbiBindings.Proofs.Artifact.Loading
import AbiBindings.Proofs.Contract.Naming
import AbiBindings.Proofs.Identifier.Mangling
import Mathlib.Data.List.Sort

/-!
Duplicates. Naming a loaded artifact is refused for a duplicate exactly if two entries of one kind
have one name and the same input types, and the refusal tells of the first such entry and of all
the positions where its signature stands.

The code compares signatures. That this compares names and types is `Signature.canonical_eq_iff`,
which holds for the types that reading gives, and a loaded artifact has no others.
-/

namespace AbiBindings.Contract

open AbiType (eraseNames)
open Outcome

/-- What tells the entries of one kind apart: the name and the types of the inputs. -/
structure Declaration where
  name : Text
  types : List AbiType

namespace Declaration

def signature (d : Declaration) : Text := Signature.canonical d.name d.types

def Same (d e : Declaration) : Prop :=
  d.name = e.name ∧ d.types.map eraseNames = e.types.map eraseNames

end Declaration

def declaration? : Entry → Option Declaration
  | .function entry => some ⟨entry.name, typesOf entry.inputs⟩
  | .event entry => some ⟨entry.name, typesOf entry.inputs⟩
  | .error entry => some ⟨entry.name, typesOf entry.inputs⟩
  | .constructor _ | .fallback _ | .receive _ => none

/-- The kinds that have signatures, in the order in which they are checked. -/
def signedKinds : List EntryKind := [.function, .event, .error]

def DeclaredAt (abi : List Entry) (kind : EntryKind) (position : Nat) (d : Declaration) : Prop :=
  ∃ entry, abi[position]? = some entry ∧ entry.kind = kind ∧ declaration? entry = some d

/-- Elsewhere in the list an entry of the same kind declares the same. -/
def HasTwin (abi : List Entry) (kind : EntryKind) (position : Nat) : Prop :=
  ∃ d, DeclaredAt abi kind position d ∧
    ∃ other e, other ≠ position ∧ DeclaredAt abi kind other e ∧ d.Same e

/-- The first entry with a twin, among the entries of the first kind that has twins: its name, its
signature, and all positions of entries of that kind with that signature. -/
structure FirstDuplicate (abi : List Entry) (kind : EntryKind) (name signature : Text)
    (positions : List Nat) : Prop where
  first_kind : ∃ before after, signedKinds = before ++ kind :: after ∧
    ∀ earlier ∈ before, ∀ position, ¬ HasTwin abi earlier position
  first_entry : ∃ position d, DeclaredAt abi kind position d ∧ HasTwin abi kind position ∧
    (∀ earlier < position, ¬ HasTwin abi kind earlier) ∧ name = d.name ∧ signature = d.signature
  increasing : positions.Pairwise (· < ·)
  mem_iff : ∀ position, position ∈ positions ↔
    ∃ d, DeclaredAt abi kind position d ∧ d.signature = signature

def Signed.HasTwin (entries : List Signed) (s : Signed) : Prop :=
  ∃ t ∈ entries, t.index ≠ s.index ∧ t.signature = s.signature

def Increasing (entries : List Signed) : Prop := (entries.map Signed.index).Pairwise (· < ·)

section

variable {entries : List Signed} {s : Signed}

theorem Increasing.nodup_map (h : Increasing entries) : (entries.map Signed.index).Nodup :=
  h.imp Nat.ne_of_lt

/-- The entries with the signature of a given one, itself included. -/
def twins (entries : List Signed) (s : Signed) : List Signed :=
  entries.filter fun t => t.signature = s.signature

theorem mem_twins {t : Signed} : t ∈ twins entries s ↔ t ∈ entries ∧ t.signature = s.signature := by
  rw [twins, List.mem_filter, decide_eq_true_eq]

/-- An entry shares its signature with more than itself if and only if it has a twin. -/
theorem one_lt_length_twins (h : Increasing entries) (hs : s ∈ entries) :
    1 < (twins entries s).length ↔ s.HasTwin entries := by
  constructor
  · intro hlength
    by_contra hnone
    have hself : twins entries s ⊆ [s] := by
      intro t ht
      obtain ⟨ht, hsame⟩ := mem_twins.mp ht
      rw [List.mem_singleton]
      apply List.inj_on_of_nodup_map h.nodup_map ht hs
      by_contra hne
      exact hnone ⟨t, ht, hne, hsame⟩
    have hnodup : (twins entries s).Nodup := h.nodup_map.of_map.filter _
    have hle := (hnodup.subperm hself).length_le
    rw [List.length_singleton] at hle
    omega
  · rintro ⟨t, ht, hne, hsame⟩
    rw [twins, ← List.countP_eq_length_filter]
    have hdistinct : s ≠ t := fun heq => hne (by rw [heq])
    exact Identifier.one_lt_countP hs ht hdistinct (by simp) (by simp [hsame])

theorem checkDuplicates_eq : checkDuplicates entries =
    match entries.find? fun s => 1 < (twins entries s).length with
    | none => .ok ()
    | some s =>
      .error (.duplicateEntry s.name s.signature ((twins entries s).map Signed.index)) := rfl

theorem checkDuplicates_eq_ok (h : Increasing entries) :
    checkDuplicates entries = .ok () ↔ ∀ s ∈ entries, ¬ s.HasTwin entries := by
  rw [checkDuplicates_eq]
  cases hfind : entries.find? fun s => 1 < (twins entries s).length with
  | none =>
    simp only [List.find?_eq_none, decide_eq_true_eq] at hfind
    simp only [true_iff]
    intro s hs htwin
    exact hfind s hs ((one_lt_length_twins h hs).mpr htwin)
  | some s =>
    simp only [reduceCtorEq, false_iff]
    intro hnone
    have hs := List.mem_of_find?_eq_some hfind
    have hlength : 1 < (twins entries s).length := by simpa using List.find?_some hfind
    exact hnone s hs ((one_lt_length_twins h hs).mp hlength)

/-- Around an entry, those in front of it are the ones with smaller positions. -/
theorem Increasing.mem_front_iff {front back : List Signed}
    (h : Increasing (front ++ s :: back)) {t : Signed} (ht : t ∈ front ++ s :: back) :
    t ∈ front ↔ t.index < s.index := by
  simp only [Increasing, List.map_append, List.map_cons, List.pairwise_append,
    List.pairwise_cons, List.forall_mem_map, List.forall_mem_cons] at h
  obtain ⟨-, ⟨hback, -⟩, hfront⟩ := h
  constructor
  · intro hmem
    exact (hfront t hmem).1
  · intro hlt
    rcases List.mem_append.mp ht with hmem | hmem
    · exact hmem
    · rcases List.mem_cons.mp hmem with rfl | hmem
      · omega
      · have := hback t hmem
        omega

/-- The first entry that passes a test is the one with the smallest position. -/
theorem find?_eq_some_iff (h : Increasing entries) {p : Signed → Bool} :
    entries.find? p = some s ↔
      s ∈ entries ∧ p s = true ∧ ∀ t ∈ entries, t.index < s.index → p t = false := by
  rw [List.find?_eq_some_iff_append]
  constructor
  · rintro ⟨hs, front, back, rfl, hfront⟩
    refine ⟨by simp, hs, ?_⟩
    intro t ht hlt
    simpa using hfront t ((h.mem_front_iff ht).mpr hlt)
  · rintro ⟨hmem, hs, hbefore⟩
    obtain ⟨front, back, rfl⟩ := List.append_of_mem hmem
    refine ⟨hs, front, back, rfl, ?_⟩
    intro t ht
    have hall : t ∈ front ++ s :: back := List.mem_append_left _ ht
    simpa using hbefore t hall ((h.mem_front_iff hall).mp ht)

theorem checkDuplicates_eq_error (h : Increasing entries) {fault : Fault} :
    checkDuplicates entries = .error fault ↔
      ∃ s ∈ entries, s.HasTwin entries ∧
        (∀ t ∈ entries, t.index < s.index → ¬ t.HasTwin entries) ∧
        fault = .duplicateEntry s.name s.signature ((twins entries s).map Signed.index) := by
  have hiff (s : Signed) : (entries.find? fun s => 1 < (twins entries s).length) = some s ↔
      s ∈ entries ∧ s.HasTwin entries ∧ ∀ t ∈ entries, t.index < s.index → ¬ t.HasTwin entries := by
    rw [find?_eq_some_iff h]
    simp only [decide_eq_true_eq, decide_eq_false_iff_not]
    constructor
    · rintro ⟨hs, hlength, hbefore⟩
      refine ⟨hs, (one_lt_length_twins h hs).mp hlength, ?_⟩
      intro t ht hlt htwin
      exact hbefore t ht hlt ((one_lt_length_twins h ht).mpr htwin)
    · rintro ⟨hs, htwin, hbefore⟩
      refine ⟨hs, (one_lt_length_twins h hs).mpr htwin, ?_⟩
      intro t ht hlt hlength
      exact hbefore t ht hlt ((one_lt_length_twins h ht).mp hlength)
  rw [checkDuplicates_eq]
  constructor
  · intro hfail
    split at hfail
    · cases hfail
    · next s hfind =>
      obtain ⟨hs, htwin, hbefore⟩ := (hiff s).mp hfind
      exact ⟨s, hs, htwin, hbefore, (Except.error.inj hfail).symm⟩
  · rintro ⟨s, hs, htwin, hbefore, rfl⟩
    rw [(hiff s).mpr ⟨hs, htwin, hbefore⟩]

end

/-- What the parts of a loaded ABI list satisfy: entries know their positions, and their types are
those that reading gives. -/
structure WellRead (abi : List Entry) : Prop where
  index_eq : ∀ (position : Nat) (entry : Entry), abi[position]? = some entry →
    entry.index = position
  supported : ∀ entry ∈ abi, ∀ param ∈ Artifact.paramsOf entry, param.type.Supported

theorem wellRead_of_load {raw : Json} {name : Option Text} {artifact : Artifact}
    (h : Artifact.load raw name = .ok artifact) : WellRead artifact.abi where
  index_eq := fun _ _ hentry => Artifact.index_of_load h hentry
  supported := fun _ hentry _ hparam => Artifact.supported_of_load h hentry hparam

/-- An entry as far as duplicates among a kind are concerned. -/
def signed? (kind : EntryKind) (entry : Entry) : Option Signed :=
  if entry.kind = kind then
    (declaration? entry).map fun d => ⟨entry.index, d.name, d.signature⟩
  else none

def signedOf (kind : EntryKind) (abi : List Entry) : List Signed := abi.filterMap (signed? kind)

/-- Functions, events and errors are checked in this order, and in the same way. -/
theorem checkAllDuplicates_eq (artifact : Artifact) :
    checkAllDuplicates artifact =
      signedKinds.forM fun kind => checkDuplicates (signedOf kind artifact.abi) := by
  have hfunctions : signedFunctions artifact = signedOf .function artifact.abi := by
    rw [signedFunctions, Artifact.functions, List.map_filterMap, signedOf]
    congr 1
    funext entry
    cases entry <;> rfl
  have hevents : signedEvents artifact = signedOf .event artifact.abi := by
    rw [signedEvents, Artifact.events, List.map_filterMap, signedOf]
    congr 1
    funext entry
    cases entry <;> rfl
  have herrors : signedErrors artifact = signedOf .error artifact.abi := by
    rw [signedErrors, Artifact.errors, List.map_filterMap, signedOf]
    congr 1
    funext entry
    cases entry <;> rfl
  rw [checkAllDuplicates, hfunctions, hevents, herrors]
  simp only [signedKinds, List.forM]
  cases checkDuplicates (signedOf .error artifact.abi) <;> rfl

section

variable {abi : List Entry} {kind : EntryKind}

theorem signed?_eq_some {entry : Entry} {s : Signed} :
    signed? kind entry = some s ↔ entry.kind = kind ∧
      ∃ d, declaration? entry = some d ∧ s = ⟨entry.index, d.name, d.signature⟩ := by
  rw [signed?]
  split
  · next hkind =>
    rw [Option.map_eq_some_iff]
    simp only [hkind, true_and, @eq_comm _ s]
  · next hkind => simp [hkind]

theorem mem_signedOf (h : WellRead abi) {s : Signed} :
    s ∈ signedOf kind abi ↔ ∃ d, DeclaredAt abi kind s.index d ∧
      s.name = d.name ∧ s.signature = d.signature := by
  rw [signedOf, List.mem_filterMap]
  constructor
  · rintro ⟨entry, hentry, hsigned⟩
    obtain ⟨hkind, d, hdeclared, rfl⟩ := signed?_eq_some.mp hsigned
    obtain ⟨position, hposition⟩ := List.mem_iff_getElem?.mp hentry
    have hindex := h.index_eq position entry hposition
    exact ⟨d, ⟨entry, by rw [hindex]; exact hposition, hkind, hdeclared⟩, rfl, rfl⟩
  · rintro ⟨d, ⟨entry, hposition, hkind, hdeclared⟩, hname, hsignature⟩
    have hindex := h.index_eq _ entry hposition
    refine ⟨entry, List.mem_of_getElem? hposition, signed?_eq_some.mpr ⟨hkind, d, hdeclared, ?_⟩⟩
    rw [hindex, ← hname, ← hsignature]

theorem increasing_signedOf (h : WellRead abi) : Increasing (signedOf kind abi) := by
  have hpositions : abi.Pairwise fun a b => a.index < b.index := by
    rw [List.pairwise_iff_getElem]
    intro i j hi hj hlt
    have hfirst := h.index_eq i _ (List.getElem?_eq_getElem hi)
    have hsecond := h.index_eq j _ (List.getElem?_eq_getElem hj)
    omega
  rw [Increasing, List.pairwise_map, signedOf]
  apply hpositions.filterMap
  intro a b hlt s hs t ht
  obtain ⟨-, d, -, rfl⟩ := signed?_eq_some.mp hs
  obtain ⟨-, e, -, rfl⟩ := signed?_eq_some.mp ht
  exact hlt

theorem DeclaredAt.supported (h : WellRead abi) {position : Nat} {d : Declaration}
    (hd : DeclaredAt abi kind position d) : ∀ type ∈ d.types, type.Supported := by
  obtain ⟨entry, hentry, -, hdeclared⟩ := hd
  have hall := h.supported entry (List.mem_of_getElem? hentry)
  intro type htype
  cases entry with
  | function entry =>
    cases hdeclared
    obtain ⟨param, hparam, rfl⟩ := List.mem_map.mp htype
    exact hall param (List.mem_append_left _ hparam)
  | event entry =>
    cases hdeclared
    obtain ⟨param, hparam, rfl⟩ := List.mem_map.mp htype
    exact hall param hparam
  | error entry =>
    cases hdeclared
    obtain ⟨param, hparam, rfl⟩ := List.mem_map.mp htype
    exact hall param hparam
  | _ => cases hdeclared

theorem DeclaredAt.unique {position : Nat} {d e : Declaration}
    (hd : DeclaredAt abi kind position d) (he : DeclaredAt abi kind position e) : d = e := by
  obtain ⟨entry, hentry, -, hd⟩ := hd
  obtain ⟨entry', hentry', -, he⟩ := he
  rw [hentry, Option.some.injEq] at hentry'
  rw [← hentry', hd, Option.some.injEq] at he
  exact he

/-- Among the signed entries of a kind, twins are those that declare the same. -/
theorem hasTwin_signedOf_iff (h : WellRead abi) {s : Signed} (hs : s ∈ signedOf kind abi) :
    s.HasTwin (signedOf kind abi) ↔ HasTwin abi kind s.index := by
  obtain ⟨d, hd, -, hsignature⟩ := (mem_signedOf h).mp hs
  constructor
  · rintro ⟨t, ht, hne, hsame⟩
    obtain ⟨e, he, -, htsignature⟩ := (mem_signedOf h).mp ht
    rw [hsignature, htsignature] at hsame
    have heq := (Signature.canonical_eq_iff (hd.supported h) (he.supported h)).mp hsame.symm
    exact ⟨d, hd, t.index, e, hne, he, heq⟩
  · rintro ⟨d', hd', other, e, hne, he, hsame⟩
    obtain rfl := hd.unique hd'
    refine ⟨⟨other, e.name, e.signature⟩, (mem_signedOf h).mpr ⟨e, he, rfl, rfl⟩, hne, ?_⟩
    rw [hsignature]
    exact ((Signature.canonical_eq_iff (hd.supported h) (he.supported h)).mpr hsame).symm

/-- The positions in a refusal are the increasing list of those with its signature. -/
theorem positions_eq_iff (h : WellRead abi) {s : Signed} {positions : List Nat} :
    positions = (twins (signedOf kind abi) s).map Signed.index ↔
      positions.Pairwise (· < ·) ∧ ∀ position, position ∈ positions ↔
        ∃ d, DeclaredAt abi kind position d ∧ d.signature = s.signature := by
  have hmem (position : Nat) : position ∈ (twins (signedOf kind abi) s).map Signed.index ↔
      ∃ d, DeclaredAt abi kind position d ∧ d.signature = s.signature := by
    simp only [List.mem_map, mem_twins]
    constructor
    · rintro ⟨t, ⟨ht, hsame⟩, rfl⟩
      obtain ⟨d, hd, -, hsignature⟩ := (mem_signedOf h).mp ht
      exact ⟨d, hd, by rw [← hsignature, hsame]⟩
    · rintro ⟨d, hd, hsame⟩
      exact ⟨⟨position, d.name, d.signature⟩, ⟨(mem_signedOf h).mpr ⟨d, hd, rfl, rfl⟩, hsame⟩, rfl⟩
  have hincreasing : ((twins (signedOf kind abi) s).map Signed.index).Pairwise (· < ·) :=
    (increasing_signedOf h).sublist (List.filter_sublist.map _)
  constructor
  · rintro rfl
    exact ⟨hincreasing, hmem⟩
  · rintro ⟨hpositions, hiff⟩
    apply hpositions.eq_of_mem_iff hincreasing
    intro position
    rw [hiff, hmem]

theorem checkDuplicates_signedOf_eq_ok (h : WellRead abi) :
    checkDuplicates (signedOf kind abi) = .ok () ↔ ∀ position, ¬ HasTwin abi kind position := by
  rw [checkDuplicates_eq_ok (increasing_signedOf h)]
  constructor
  · intro hnone position htwin
    obtain ⟨d, hd, -⟩ := id htwin
    have hs := (mem_signedOf (s := ⟨position, d.name, d.signature⟩) h).mpr ⟨d, hd, rfl, rfl⟩
    exact hnone _ hs ((hasTwin_signedOf_iff h hs).mpr htwin)
  · intro hnone s hs htwin
    exact hnone s.index ((hasTwin_signedOf_iff h hs).mp htwin)

theorem checkDuplicates_signedOf_eq_error (h : WellRead abi) {fault : Fault} :
    checkDuplicates (signedOf kind abi) = .error fault ↔
      ∃ position d positions, DeclaredAt abi kind position d ∧ HasTwin abi kind position ∧
        (∀ earlier < position, ¬ HasTwin abi kind earlier) ∧
        (positions.Pairwise (· < ·) ∧ ∀ other, other ∈ positions ↔
          ∃ e, DeclaredAt abi kind other e ∧ e.signature = d.signature) ∧
        fault = .duplicateEntry d.name d.signature positions := by
  rw [checkDuplicates_eq_error (increasing_signedOf h)]
  constructor
  · rintro ⟨s, hs, htwin, hbefore, rfl⟩
    obtain ⟨d, hd, hname, hsignature⟩ := (mem_signedOf h).mp hs
    refine ⟨s.index, d, _, hd, (hasTwin_signedOf_iff h hs).mp htwin, ?_, ?_, by
      rw [hname, hsignature]⟩
    · intro earlier hlt hearlier
      obtain ⟨e, he, -⟩ := id hearlier
      have ht := (mem_signedOf (s := ⟨earlier, e.name, e.signature⟩) h).mpr ⟨e, he, rfl, rfl⟩
      exact hbefore _ ht hlt ((hasTwin_signedOf_iff h ht).mpr hearlier)
    · rw [← hsignature]
      exact (positions_eq_iff h).mp rfl
  · rintro ⟨position, d, positions, hd, htwin, hbefore, hpositions, rfl⟩
    have hs := (mem_signedOf (s := ⟨position, d.name, d.signature⟩) h).mpr ⟨d, hd, rfl, rfl⟩
    refine ⟨_, hs, (hasTwin_signedOf_iff h hs).mpr htwin, ?_, ?_⟩
    · intro t ht hlt htwin
      exact hbefore t.index hlt ((hasTwin_signedOf_iff h ht).mp htwin)
    · rw [← (positions_eq_iff h).mpr hpositions]

end

section

variable {artifact : Artifact} {name signature : Text} {positions : List Nat}

theorem checkAllDuplicates_eq_ok (h : WellRead artifact.abi) :
    checkAllDuplicates artifact = .ok () ↔
      ∀ kind ∈ signedKinds, ∀ position, ¬ HasTwin artifact.abi kind position := by
  rw [checkAllDuplicates_eq, forM_eq_ok]
  simp only [checkDuplicates_signedOf_eq_ok h]

theorem checkAllDuplicates_eq_error (h : WellRead artifact.abi) :
    checkAllDuplicates artifact = .error (.duplicateEntry name signature positions) ↔
      ∃ kind, FirstDuplicate artifact.abi kind name signature positions := by
  rw [checkAllDuplicates_eq, forM_eq_error]
  simp only [checkDuplicates_signedOf_eq_ok h, checkDuplicates_signedOf_eq_error h,
    Fault.duplicateEntry.injEq]
  constructor
  · rintro ⟨before, kind, after, hkinds, hbefore, position, d, _, hd, htwin, hfirst,
      ⟨hincreasing, hmem⟩, rfl, rfl, rfl⟩
    exact ⟨kind, ⟨before, after, hkinds, hbefore⟩,
      ⟨position, d, hd, htwin, hfirst, rfl, rfl⟩, hincreasing, hmem⟩
  · rintro ⟨kind, ⟨before, after, hkinds, hbefore⟩,
      ⟨position, d, hd, htwin, hfirst, rfl, rfl⟩, hincreasing, hmem⟩
    exact ⟨before, kind, after, hkinds, hbefore, position, d, positions, hd, htwin, hfirst,
      ⟨hincreasing, hmem⟩, rfl, rfl, rfl⟩

/-- The check fails in no other way. -/
theorem checkAllDuplicates_fault (h : WellRead artifact.abi) {fault : Fault}
    (hfail : checkAllDuplicates artifact = .error fault) :
    ∃ name signature positions, fault = .duplicateEntry name signature positions := by
  rw [checkAllDuplicates_eq, forM_eq_error] at hfail
  obtain ⟨-, kind, -, -, -, hkind⟩ := hfail
  obtain ⟨-, d, positions, -, -, -, -, rfl⟩ := (checkDuplicates_signedOf_eq_error h).mp hkind
  exact ⟨d.name, d.signature, positions, rfl⟩

end

section

variable {raw : Json} {name? : Option Text} {artifact : Artifact}

theorem ofArtifact_eq_duplicateEntry {aliases : List (Text × Text)} {name signature : Text}
    {positions : List Nat} :
    ofArtifact artifact aliases = .error (.duplicateEntry name signature positions) ↔
      checkAllDuplicates artifact = .error (.duplicateEntry name signature positions) := by
  constructor
  · intro hfail
    rcases ofArtifact_fault hfail with hduplicate | ⟨place, hplace⟩
    · exact hduplicate
    · cases hplace
  · intro hfail
    exact bind_eq_error.mpr (.inl hfail)

/-- A loaded artifact is refused for a duplicate exactly if an entry has a twin, and the refusal
tells of the first one. -/
theorem ofArtifact_duplicateEntry_iff (h : Artifact.load raw name? = .ok artifact)
    (aliases : List (Text × Text)) :
    ((∃ name signature positions,
        ofArtifact artifact aliases = .error (.duplicateEntry name signature positions)) ↔
      ∃ kind ∈ signedKinds, ∃ position, HasTwin artifact.abi kind position) ∧
    ∀ name signature positions,
      ofArtifact artifact aliases = .error (.duplicateEntry name signature positions) ↔
        ∃ kind, FirstDuplicate artifact.abi kind name signature positions := by
  have hread := wellRead_of_load h
  simp only [ofArtifact_eq_duplicateEntry]
  constructor
  · constructor
    · rintro ⟨name, signature, positions, hfail⟩
      obtain ⟨kind, hfirst⟩ := (checkAllDuplicates_eq_error hread).mp hfail
      obtain ⟨before, after, hkinds, -⟩ := hfirst.first_kind
      obtain ⟨position, d, -, htwin, -⟩ := hfirst.first_entry
      refine ⟨kind, ?_, position, htwin⟩
      rw [hkinds]
      exact List.mem_append_right _ List.mem_cons_self
    · rintro ⟨kind, hkind, position, htwin⟩
      cases hcheck : checkAllDuplicates artifact with
      | error fault =>
        obtain ⟨name, signature, positions, rfl⟩ := checkAllDuplicates_fault hread hcheck
        exact ⟨name, signature, positions, rfl⟩
      | ok =>
        exact absurd htwin ((checkAllDuplicates_eq_ok hread).mp hcheck kind hkind position)
  · intro name signature positions
    exact checkAllDuplicates_eq_error hread

end

/-- An event, a function, the same function but for the name of a component, and the event
again. -/
def interleaved : Json :=
  let part (name : Text) : Json := .obj [("name", .str name), ("type", .str "bool")]
  let pair (name : Text) : Json :=
    .obj [("name", .str ""), ("type", .str "tuple"), ("components", .arr [part name])]
  let event : Json := .obj [("type", .str "event"), ("name", .str "e"), ("inputs", .arr [])]
  let function (input : Json) : Json :=
    .obj [("type", .str "function"), ("name", .str "f(,"), ("inputs", .arr [input]),
      ("outputs", .arr []), ("stateMutability", .str "view")]
  .obj [("contractName", .str "Interleaved"),
    ("abi", .arr [event, function (pair "a"), function (pair "b"), event])]

/-- The functions are refused, although the events stand around them. -/
theorem ofArtifact_duplicateEntry_iff_interleaved :
    ∃ artifact, Artifact.load interleaved none = .ok artifact ∧
      ofArtifact artifact [] = .error (.duplicateEntry "f(," "f(,((bool))" [1, 2]) ∧
      (∃ kind, FirstDuplicate artifact.abi kind "f(," "f(,((bool))" [1, 2]) ∧
      ∃ kind ∈ signedKinds, ∃ position, HasTwin artifact.abi kind position := by
  obtain ⟨artifact, hload, hfail⟩ : ∃ artifact, Artifact.load interleaved none = .ok artifact ∧
      ofArtifact artifact [] = .error (.duplicateEntry "f(," "f(,((bool))" [1, 2]) :=
    ⟨_, rfl, rfl⟩
  obtain ⟨hexists, hfirst⟩ := ofArtifact_duplicateEntry_iff hload []
  exact ⟨artifact, hload, hfail, (hfirst _ _ _).mp hfail, hexists.mp ⟨_, _, _, hfail⟩⟩

end AbiBindings.Contract
