import AbiBindings.Proofs.Artifact.Shape
import AbiBindings.Proofs.Artifact.Sound
import AbiBindings.Proofs.Client.Faithful

/-!
What functions, constructors and fallback functions may do. An item either declares it with a word,
or two older flags tell. Of the two, the one for constant functions comes first, and constructors
and fallback functions go by it too, although their shapes know nothing of it: so such an item can
be loaded as read-only, even if it is marked as payable.
-/

namespace AbiBindings

open Outcome

namespace Artifact

def mutabilityWords : EntryKind → List Text
  | .function => ["pure", "view", "nonpayable", "payable"]
  | .constructor | .fallback => Shape.receivingWords
  | .event | .error | .receive => []

/-- What an item of a kind may do: what it declares with one of the words for its kind, or else
what its flags tell, that for constant functions before that for payable ones. -/
inductive Tells (kind : EntryKind) (item : Json) : Mutability → Prop
  | declared {mutability : Mutability} :
      item.field? "stateMutability" = some (.str mutability.name) →
      mutability.name ∈ mutabilityWords kind → Tells kind item mutability
  | constant : item.field? "stateMutability" = none → flagPart item "constant" = true →
      Tells kind item .view
  | payable : item.field? "stateMutability" = none → flagPart item "constant" = false →
      item.field? "payable" = some (.bool true) → Tells kind item .payable
  | neither : item.field? "stateMutability" = none → flagPart item "constant" = false →
      item.field? "payable" ≠ some (.bool true) → Tells kind item .nonpayable

/-- What an entry may do, if that is said of entries of its kind. -/
def mutability? : Entry → Option Mutability
  | .function entry => some entry.mutability
  | .constructor entry => some entry.mutability
  | .fallback entry => some entry.mutability
  | .event _ | .error _ | .receive _ => none

theorem exists_mutability? {entry : Entry} (h : mutabilityWords entry.kind ≠ []) :
    ∃ mutability, mutability? entry = some mutability := by
  cases entry with
  | function entry => exact ⟨entry.mutability, rfl⟩
  | constructor entry => exact ⟨entry.mutability, rfl⟩
  | fallback entry => exact ⟨entry.mutability, rfl⟩
  | event | error | receive => exact absurd rfl h

section

variable {kind : EntryKind} {item : Json}

theorem Fits.word (h : Fits item (Shape.ofEntry kind)) (hwords : mutabilityWords kind ≠ [])
    {value : Json} (hvalue : item.field? "stateMutability" = some value) :
    ∃ word ∈ mutabilityWords kind, value = .str word := by
  have hrule : ∀ words, Fits value (Shape.word words) → ∃ word ∈ words, value = .str word :=
    fun words => fits_word.mp
  cases kind with
  | function => exact hrule _ (h.property (by simp [mutabilityWords]) hvalue)
  | constructor => exact hrule _ (h.property (by simp [mutabilityWords]) hvalue)
  | fallback => exact hrule _ (h.property (by simp [mutabilityWords]) hvalue)
  | event | error | receive => exact absurd rfl hwords

theorem fits_flag {value : Json} : Fits value Shape.flag ↔ ∃ set, value = .bool set := by
  rw [Fits, Shape.flag, Json.follows_mk]
  cases value <;> simp [Kind.admits]

/-- The flag for payable functions is a truth value. -/
theorem Fits.payable (h : Fits item (Shape.ofEntry kind)) (hwords : mutabilityWords kind ≠ []) :
    flagPart item "payable" = true ↔ item.field? "payable" = some (.bool true) := by
  have hflag : ∀ value, item.field? "payable" = some value → ∃ set, value = .bool set := by
    intro value hvalue
    have hrule : Fits value Shape.flag → ∃ set, value = .bool set := fits_flag.mp
    cases kind with
    | function => exact hrule (h.property (by simp) hvalue)
    | constructor => exact hrule (h.property (by simp) hvalue)
    | fallback => exact hrule (h.property (by simp) hvalue)
    | event | error | receive => exact absurd rfl hwords
  rw [flagPart]
  cases hfield : item.field? "payable" with
  | none => simp
  | some value =>
    obtain ⟨set, rfl⟩ := hflag value hfield
    simp [Json.isSet]

/-- An item tells one thing. -/
theorem Tells.unique {mutability other : Mutability} (h : Tells kind item mutability)
    (h' : Tells kind item other) : mutability = other := by
  cases h with
  | declared hfield =>
    cases h' with
    | declared hfield' =>
      have hname := Json.str.inj (Option.some.inj (hfield.symm.trans hfield'))
      have hfound := Mutability.ofName?_name other
      rw [← hname, Mutability.ofName?_name] at hfound
      exact Option.some.inj hfound
    | constant hnone | payable hnone | neither hnone => simp [hfield] at hnone
  | constant hnone hconstant =>
    cases h' with
    | declared hfield => simp [hnone] at hfield
    | constant => rfl
    | payable _ hvaries | neither _ hvaries => simp [hconstant] at hvaries
  | payable hnone hvaries hpayable =>
    cases h' with
    | declared hfield => simp [hnone] at hfield
    | constant _ hconstant => simp [hconstant] at hvaries
    | payable => rfl
    | neither _ _ hnot => exact absurd hpayable hnot
  | neither hnone hvaries hnot =>
    cases h' with
    | declared hfield => simp [hnone] at hfield
    | constant _ hconstant => simp [hconstant] at hvaries
    | payable _ _ hpayable => exact absurd hpayable hnot
    | neither => rfl

/-- What is read from an item that fits is what the item tells. -/
theorem tells_of_mutabilityPart (h : Fits item (Shape.ofEntry kind))
    (hwords : mutabilityWords kind ≠ []) {mutability : Mutability}
    (hread : mutabilityPart item = .ok mutability) : Tells kind item mutability := by
  rw [mutabilityPart] at hread
  cases hfield : item.field? "stateMutability" with
  | some value =>
    obtain ⟨word, hword, rfl⟩ := h.word hwords hfield
    simp only [hfield] at hread
    split at hread
    · next found hfound =>
      obtain rfl := Except.ok.inj hread
      obtain rfl : found.name = word := by simpa using List.find?_some hfound
      exact .declared hfield hword
    · cases hread
  | none =>
    simp only [hfield] at hread
    split at hread
    · next hconstant =>
      obtain rfl := Except.ok.inj hread
      exact .constant hfield hconstant
    · next hvaries =>
      rw [Bool.not_eq_true] at hvaries
      split at hread
      · next hpayable =>
        obtain rfl := Except.ok.inj hread
        exact .payable hfield hvaries ((h.payable hwords).mp hpayable)
      · next hnot =>
        obtain rfl := Except.ok.inj hread
        exact .neither hfield hvaries (mt (h.payable hwords).mpr hnot)

/-- A constructor or fallback function that declares nothing is told to be constant. -/
structure ToldConstant (item : Json) : Prop where
  undeclared : item.field? "stateMutability" = none
  constant : flagPart item "constant" = true

/-- Where only two words are allowed, one of the two mutabilities comes out unless an item that
declares nothing is told to be constant. -/
theorem Tells.receiving_iff (hkind : mutabilityWords kind = Shape.receivingWords)
    {mutability : Mutability} (h : Tells kind item mutability) :
    (mutability = .nonpayable ∨ mutability = .payable) ↔ ¬ ToldConstant item := by
  cases h with
  | @declared mutability hfield hword =>
    have hnot : ¬ ToldConstant item := fun htold =>
      absurd (hfield.symm.trans htold.undeclared) (by simp)
    rw [hkind] at hword
    refine iff_of_true ?_ hnot
    revert hword
    cases mutability <;> decide
  | constant hnone hconstant =>
    exact iff_of_false (by simp) (not_not.mpr ⟨hnone, hconstant⟩)
  | payable _ hvaries =>
    exact iff_of_true (.inr rfl) fun htold =>
      absurd (hvaries.symm.trans htold.constant) (by simp)
  | neither _ hvaries =>
    exact iff_of_true (.inl rfl) fun htold =>
      absurd (hvaries.symm.trans htold.constant) (by simp)

end

theorem fits_of_loadEntry {item : Json} {index : Nat} {entry : Entry}
    (h : loadEntry item index = .ok entry) : Fits item (Shape.ofEntry entry.kind) := by
  obtain ⟨kind, hkind, hcheck, -⟩ := loadEntry_eq_ok.mp h
  obtain rfl := Except.ok.inj ((loadEntry_ok h).kindOf_eq.symm.trans hkind)
  exact check_eq_ok.mp hcheck

/-- What a loaded entry may do is what its item tells. -/
theorem tells_of_loadEntry {item : Json} {index : Nat} {entry : Entry} {mutability : Mutability}
    (h : loadEntry item index = .ok entry) (hmutability : mutability? entry = some mutability) :
    Tells entry.kind item mutability := by
  have hfits := fits_of_loadEntry h
  cases loadEntry_ok h with
  | function _ _ _ _ hread =>
    obtain rfl := Option.some.inj hmutability
    exact tells_of_mutabilityPart hfits (List.cons_ne_nil _ _) hread
  | constructor _ _ hread =>
    obtain rfl := Option.some.inj hmutability
    exact tells_of_mutabilityPart hfits (List.cons_ne_nil _ _) hread
  | fallback _ hread =>
    obtain rfl := Option.some.inj hmutability
    exact tells_of_mutabilityPart hfits (List.cons_ne_nil _ _) hread
  | event | error | receive => cases hmutability

structure LoadedFrom (items : List Json) (entries : List Entry) : Prop where
  loaded : List.Forall₂ (fun p entry => loadEntry p.1 p.2 = .ok entry) items.zipIdx entries
  sole : ∀ kind ∈ EntryKind.singletons, (entries.map Entry.kind).count kind ≤ 1

theorem exists_loadedFrom {raw : Json} {name : Option Text} {artifact : Artifact}
    (h : load raw name = .ok artifact) :
    ∃ items, IsAbiList raw items ∧ LoadedFrom items artifact.abi := by
  simp only [load, Draft.ofJson, bind_eq_ok, pure_eq_ok, Except.ok.injEq] at h
  obtain ⟨draft, ⟨document, hdocument, ⟨⟩, -, ⟨⟩, -, title, -, items, hitems, entries, hentries,
    ⟨⟩, hsole, bytecode, -, rfl⟩, fields, -, deployments, -, rfl⟩ := h
  refine ⟨items, ⟨document, hdocument, abiPart_ok hitems⟩, forall₂_of_loadEntries hentries, ?_⟩
  exact fun kind hkind => checkSole_eq_ok.mp (forM_eq_ok.mp hsole kind hkind)

section

variable {items : List Json} {entries : List Entry} (h : LoadedFrom items entries)
include h

/-- Of a kind of which there is at most one entry, two are the same. -/
theorem LoadedFrom.eq_of_kind {entry other : Entry} (hkind : entry.kind ∈ EntryKind.singletons)
    (hentry : entry ∈ entries) (hother : other ∈ entries) (hsame : other.kind = entry.kind) :
    entry = other := by
  have hsole := h.sole entry.kind hkind
  rw [count_kinds] at hsole
  have hmem : entry ∈ entries.filter fun found => found.kind = entry.kind :=
    List.mem_filter.mpr ⟨hentry, by simp⟩
  have hmem' : other ∈ entries.filter fun found => found.kind = entry.kind :=
    List.mem_filter.mpr ⟨hother, by simp [hsame]⟩
  obtain ⟨sole, heq⟩ := List.length_eq_one_iff.mp
    (Nat.le_antisymm hsole (List.length_pos_of_mem hmem))
  rw [heq] at hmem hmem'
  rw [List.mem_singleton.mp hmem, List.mem_singleton.mp hmem']

/-- What the entries of a kind may do is what the items of that kind tell. -/
theorem LoadedFrom.exists_tells_iff {kind : EntryKind} (hwords : mutabilityWords kind ≠ [])
    (mutability : Mutability) :
    (∃ entry ∈ entries, entry.kind = kind ∧ mutability? entry = some mutability) ↔
      ∃ item ∈ items, Declares item kind ∧ Tells kind item mutability := by
  constructor
  · rintro ⟨entry, hentry, rfl, hmutability⟩
    obtain ⟨⟨item, position⟩, hitem, hloaded⟩ := exists_of_forall₂ h.loaded hentry
    exact ⟨item, List.fst_mem_of_mem_zipIdx hitem,
      declares_of_kindOf (loadEntry_ok hloaded).kindOf_eq, tells_of_loadEntry hloaded hmutability⟩
  · rintro ⟨item, hitem, hdeclares, htells⟩
    obtain ⟨position, hposition⟩ := List.mem_iff_getElem?.mp hitem
    have hlt : position < entries.length := by
      rw [← h.loaded.length_eq, List.length_zipIdx]
      exact (List.getElem?_eq_some_iff.mp hposition).1
    have hloaded := holds_at (R := fun item index entry => loadEntry item index = .ok entry)
      h.loaded hposition (List.getElem?_eq_getElem hlt)
    have hkind := (loadEntry_ok hloaded).kindOf_eq
    rw [kindOf_of_declares hdeclares] at hkind
    obtain rfl := Except.ok.inj hkind
    refine ⟨_, List.getElem_mem hlt, rfl, ?_⟩
    obtain ⟨found, hfound⟩ := exists_mutability? hwords
    rw [hfound, (tells_of_loadEntry hloaded hfound).unique htells]

end

/-- The only entry of a kind may do what an item of that kind tells. -/
theorem LoadedFrom.picked_iff {items : List Json} {entries : List Entry}
    (h : LoadedFrom items entries) {α : Type} {pick : Entry → Option α} {make : α → Entry}
    {may : α → Mutability} {kind : EntryKind}
    (hpick : ∀ entry found, pick entry = some found ↔ entry = make found)
    (hmade : ∀ entry, entry.kind = kind ↔ ∃ found, entry = make found)
    (hmay : ∀ found, mutability? (make found) = some (may found))
    (hwords : mutabilityWords kind ≠ []) (hkind : kind ∈ EntryKind.singletons)
    (mutability : Mutability) :
    (∃ found, entries.findSome? pick = some found ∧ may found = mutability) ↔
      ∃ item ∈ items, Declares item kind ∧ Tells kind item mutability := by
  have hsame (found : α) : (make found).kind = kind := (hmade _).mpr ⟨found, rfl⟩
  have hfound (found : α) : entries.findSome? pick = some found ↔ make found ∈ entries :=
    findSome?_eq_some_iff_mem hpick fun first second hfirst hsecond =>
      h.eq_of_kind (hsame first ▸ hkind) hfirst hsecond ((hsame second).trans (hsame first).symm)
  rw [← h.exists_tells_iff hwords]
  simp only [hfound]
  constructor
  · rintro ⟨found, hmem, rfl⟩
    exact ⟨_, hmem, hsame found, hmay found⟩
  · rintro ⟨entry, hentry, hentryKind, hmutability⟩
    obtain ⟨found, rfl⟩ := (hmade entry).mp hentryKind
    exact ⟨found, hentry, Option.some.inj ((hmay found).symm.trans hmutability)⟩

section

variable {artifact : Artifact} {items : List Json} (h : LoadedFrom items artifact.abi)
  (mutability : Mutability)
include h

theorem LoadedFrom.constructor_iff :
    (∃ entry, artifact.constructor? = some entry ∧ entry.mutability = mutability) ↔
      ∃ item ∈ items, Declares item .constructor ∧ Tells .constructor item mutability := by
  have hpick (entry : Entry) (found : ConstructorEntry) :
      entry.constructor? = some found ↔ entry = .constructor found := by
    cases entry <;> simp [Entry.constructor?]
  have hmade (entry : Entry) : entry.kind = .constructor ↔ ∃ found, entry = .constructor found := by
    cases entry <;> simp [Entry.kind]
  have hwords : mutabilityWords .constructor ≠ [] := List.cons_ne_nil _ _
  exact h.picked_iff hpick hmade (fun _ => rfl) hwords (by decide) mutability

theorem LoadedFrom.fallback_iff :
    (∃ entry, artifact.fallback? = some entry ∧ entry.mutability = mutability) ↔
      ∃ item ∈ items, Declares item .fallback ∧ Tells .fallback item mutability := by
  have hpick (entry : Entry) (found : FallbackEntry) :
      entry.fallback? = some found ↔ entry = .fallback found := by
    cases entry <;> simp [Entry.fallback?]
  have hmade (entry : Entry) : entry.kind = .fallback ↔ ∃ found, entry = .fallback found := by
    cases entry <;> simp [Entry.kind]
  have hwords : mutabilityWords .fallback ≠ [] := List.cons_ne_nil _ _
  exact h.picked_iff hpick hmade (fun _ => rfl) hwords (by decide) mutability

end

/-- What a loaded function, constructor or fallback function may do is what its item tells, with
the words for its kind and then the flags. So a constructor or fallback function is payable or not
payable exactly unless its item declares nothing and is told to be constant. In the module for the
artifact, the constructor takes value exactly if an item for one tells that it is payable, and the
fallback function may do what an item for one tells. -/
theorem mutability_of_load {raw : Json} {name : Option Text} {artifact : Artifact}
    (h : load raw name = .ok artifact) :
    ∃ items, IsAbiList raw items ∧
      (∀ (position : Nat) item entry mutability, items[position]? = some item →
        artifact.abi[position]? = some entry → mutability? entry = some mutability →
        Tells entry.kind item mutability ∧
        (entry.kind ≠ .function →
          ((mutability = .nonpayable ∨ mutability = .payable) ↔ ¬ ToldConstant item))) ∧
      ∀ aliases contract package client, Contract.ofArtifact artifact aliases = .ok contract →
        Client.ofContract contract package none = .ok client →
        (client.constructor.payable = true ↔
          ∃ item ∈ items, Declares item .constructor ∧ Tells .constructor item .payable) ∧
        ∀ mutability, client.fallback = some mutability ↔
          ∃ item ∈ items, Declares item .fallback ∧ Tells .fallback item mutability := by
  obtain ⟨items, hitems, hloaded⟩ := exists_loadedFrom h
  refine ⟨items, hitems, ?_, ?_⟩
  · intro position item entry mutability hitem hentry hmutability
    have hentryLoaded := holds_at
      (R := fun item index entry => loadEntry item index = .ok entry) hloaded.loaded hitem hentry
    have htells := tells_of_loadEntry hentryLoaded hmutability
    refine ⟨htells, fun hkind => htells.receiving_iff ?_⟩
    cases entry with
    | function => exact absurd rfl hkind
    | constructor | fallback => rfl
    | event | error | receive => cases hmutability
  · intro aliases contract package client hcontract hclient
    have hdepicts := Client.depicts_ofContract hcontract hclient
    constructor
    · rw [hdepicts.payable, hloaded.constructor_iff]
    · intro mutability
      rw [hdepicts.fallback, Option.map_eq_some_iff, hloaded.fallback_iff]

/-- A constructor that an older document marks as payable, and a fallback function that declares
not to be. -/
theorem mutability_of_load_older :
    ∃ items, IsAbiList (.obj [("contractName", .str "X"), ("abi", .arr [
        .obj [("type", .str "constructor"), ("payable", .bool true)],
        .obj [("type", .str "fallback"), ("stateMutability", .str "nonpayable")]])]) items ∧
      (∃ item ∈ items, Declares item .constructor ∧ Tells .constructor item .payable) ∧
      ∃ item ∈ items, Declares item .fallback ∧ Tells .fallback item .nonpayable := by
  have hload : load (.obj [("contractName", .str "X"), ("abi", .arr [
        .obj [("type", .str "constructor"), ("payable", .bool true)],
        .obj [("type", .str "fallback"), ("stateMutability", .str "nonpayable")]])]) none =
      .ok ⟨"X", [.constructor ⟨0, [], .payable⟩, .fallback ⟨1, .nonpayable⟩], none, []⟩ := rfl
  obtain ⟨items, hitems, -, hmodule⟩ := mutability_of_load hload
  obtain ⟨hconstructor, hfallback⟩ := hmodule [] _ "ethcontract" _ rfl rfl
  exact ⟨items, hitems, hconstructor.mp rfl, (hfallback .nonpayable).mp rfl⟩

/-- A constructor that is told to be both constant and payable is loaded as read-only. -/
theorem exists_constructor_view :
    load (.obj [("contractName", .str "X"), ("abi", .arr [.obj [("type", .str "constructor"),
        ("constant", .bool true), ("payable", .bool true)]])]) none =
      .ok ⟨"X", [.constructor ⟨0, [], .view⟩], none, []⟩ := rfl

end Artifact

end AbiBindings
