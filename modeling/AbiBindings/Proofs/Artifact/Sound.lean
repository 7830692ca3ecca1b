import AbiBindings.Proofs.Artifact.Loading
import AbiBindings.Proofs.Bytecode.Links

/-!
What later stages may rely on in a loaded artifact. Its entries are those of the ABI list, in
place and of the kinds that the items declare; the types of their parameters are the ones that
reading gives for the items, with sizes that the ABI allows at every depth; and of three kinds
there is at most one entry. A list with a second entry of such a kind is refused at the position of
the second one, as soon as all its entries are read.
-/

namespace AbiBindings.Artifact

open Outcome

inductive Declares (item : Json) : EntryKind → Prop
  | named {kind : EntryKind} : item.field? "type" = some (.str kind.name) → Declares item kind
  | unnamed : item.field? "type" = none → Declares item .function

theorem name_of_ofName? {word : Text} {kind : EntryKind} (h : EntryKind.ofName? word = some kind) :
    kind.name = word := by
  rw [EntryKind.ofName?] at h
  simpa using List.find?_some h

theorem declares_of_kindOf {item : Json} {kind : EntryKind} (h : kindOf item = .ok kind) :
    Declares item kind := by
  rw [kindOf] at h
  split at h
  · next hfield =>
    obtain rfl := Except.ok.inj h
    exact .unnamed hfield
  · next word hfield =>
    split at h
    · next hname =>
      obtain rfl := Except.ok.inj h
      rw [← name_of_ofName? hname] at hfield
      exact .named hfield
    · cases h
  · cases h

theorem kindOf_of_declares {item : Json} {kind : EntryKind} (h : Declares item kind) :
    kindOf item = .ok kind := by
  rw [kindOf]
  cases h with
  | named hfield => simp only [hfield, EntryKind.ofName?_name]
  | unnamed hfield => simp only [hfield]

/-- A position holds the second entry of a kind. -/
structure IsSecond (kinds : List EntryKind) (kind : EntryKind) (position : Nat) : Prop where
  here : kinds[position]? = some kind
  once : (kinds.take position).count kind = 1

section

variable {entries : List Entry} {kind : EntryKind}

theorem count_kinds (entries : List Entry) (kind : EntryKind) :
    (entries.map Entry.kind).count kind =
      (entries.filter fun entry => entry.kind = kind).length := by
  rw [List.count, List.countP_map, List.countP_eq_length_filter]
  congr 1

theorem checkSole_eq_ok : checkSole entries kind = .ok () ↔
    (entries.map Entry.kind).count kind ≤ 1 := by
  rw [checkSole, count_kinds]
  split
  · next heq => simp [heq]
  · next hne =>
    cases hfilter : entries.filter fun entry => entry.kind = kind with
    | nil => simp
    | cons first rest =>
      cases rest with
      | nil => simp
      | cons second rest => exact absurd hfilter (hne first second rest)

/-- If entries know their positions, a second entry of a kind is refused at its own. -/
theorem checkSole_eq_error {fault : Fault}
    (hindex : ∀ (position : Nat) (entry : Entry), entries[position]? = some entry →
      entry.index = position)
    (h : checkSole entries kind = .error fault) :
    ∃ position, IsSecond (entries.map Entry.kind) kind position ∧
      fault = .invalidArtifact (Location.write [.key "abi", .index position])
        (.repeatedEntry kind) := by
  rw [checkSole] at h
  split at h
  · next first second rest hfilter =>
    obtain rfl := Except.error.inj h
    obtain ⟨before, others, rfl, hbefore, hfirst, hothers⟩ := List.filter_eq_cons_iff.mp hfilter
    obtain ⟨between, after, rfl, hbetween, hsecond, -⟩ := List.filter_eq_cons_iff.mp hothers
    have hnone (part : List Entry) (hpart : ∀ entry ∈ part, ¬ decide (entry.kind = kind) = true) :
        (part.map Entry.kind).count kind = 0 := by
      rw [List.count_eq_zero, List.mem_map]
      rintro ⟨entry, hmem, hkind⟩
      exact hpart entry hmem (decide_eq_true hkind)
    have hsplit : before ++ first :: (between ++ second :: after) =
        (before ++ first :: between) ++ second :: after := by simp
    have hplace : (before ++ first :: (between ++ second :: after))[
        (before ++ first :: between).length]? = some second := by
      rw [hsplit, List.getElem?_append_right (Nat.le_refl _), Nat.sub_self, List.getElem?_cons_zero]
    refine ⟨(before ++ first :: between).length, ⟨?_, ?_⟩, ?_⟩
    · rw [List.getElem?_map, hplace, Option.map_some, of_decide_eq_true hsecond]
    · rw [← List.map_take, hsplit, List.take_left, List.map_append, List.map_cons,
        List.count_append, List.count_cons, hnone before hbefore, hnone between hbetween]
      simpa using hfirst
    · rw [hindex _ second hplace]
  · cases h

end

/-- The lists of parameters of an entry, each with the key that it stands under. -/
def paramLists : Entry → List (Text × List Param)
  | .function entry => [("inputs", entry.inputs), ("outputs", entry.outputs)]
  | .constructor entry => [("inputs", entry.inputs)]
  | .event entry => [("inputs", entry.inputs)]
  | .error entry => [("inputs", entry.inputs)]
  | .fallback _ | .receive _ => []

/-- A parameter of an entry of a kind has the type that its item spells, wherever that is read, and
is marked as indexed in events alone. -/
structure SoundParam (kind : EntryKind) (item : Json) (param : Param) : Prop where
  supported : param.type.Supported
  spelled : ∃ text, item.field? "type" = some (.str text) ∧ ∀ path,
    AbiType.parse (.str text) ((item.field? "components").getD .null) path = .ok param.type
  indexed : kind ≠ .event → param.indexed = false

structure SoundEntry (item : Json) (position : Nat) (entry : Entry) : Prop where
  index : entry.index = position
  declared : Declares item entry.kind
  params : ∀ list ∈ paramLists entry, ∃ items, OptionalList item list.1 items ∧
    List.Forall₂ (SoundParam entry.kind) items list.2

theorem SpellsParam.sound {ofEvent : Bool} {kind : EntryKind} {item : Json} {param : Param}
    (h : SpellsParam ofEvent item param) (hkind : kind ≠ .event → ofEvent = false) :
    SoundParam kind item param where
  supported := h.supported
  spelled := by
    obtain ⟨value, path, hvalue, htype⟩ := h.type
    obtain ⟨text, rfl⟩ := AbiType.exists_text_of_parse htype
    refine ⟨text, hvalue, fun other => ?_⟩
    rw [AbiType.parse_eq_ok] at htype ⊢
    exact htype
  indexed hne := by rw [h.indexed, hkind hne, Bool.false_and]

theorem SpellsParams.sound {ofEvent : Bool} {kind : EntryKind} {item : Json} {key : Text}
    {params : List Param} (h : SpellsParams ofEvent item key params)
    (hkind : kind ≠ .event → ofEvent = false) :
    ∃ items, OptionalList item key items ∧ List.Forall₂ (SoundParam kind) items params := by
  obtain ⟨items, hitems, hparams⟩ := h
  exact ⟨items, hitems, hparams.imp fun item param hparam => hparam.sound hkind⟩

theorem SpellsEntry.sound {item : Json} {position : Nat} {entry : Entry}
    (h : SpellsEntry item position entry) : SoundEntry item position entry where
  index := h.index_eq
  declared := declares_of_kindOf h.kindOf_eq
  params list hlist := by
    cases h with
    | function _ _ hinputs houtputs _ =>
      rcases List.mem_pair.mp hlist with rfl | rfl
      · exact hinputs.sound fun _ => rfl
      · exact houtputs.sound fun _ => rfl
    | constructor _ hinputs _ =>
      obtain rfl := List.mem_singleton.mp hlist
      exact hinputs.sound fun _ => rfl
    | event _ _ hinputs =>
      obtain rfl := List.mem_singleton.mp hlist
      exact hinputs.sound fun hne => absurd rfl hne
    | error _ _ hinputs =>
      obtain rfl := List.mem_singleton.mp hlist
      exact hinputs.sound fun _ => rfl
    | fallback _ _ => exact absurd hlist List.not_mem_nil
    | receive _ => exact absurd hlist List.not_mem_nil

/-- The ABI list of a value: the value itself, or what the document has under the key for it. -/
def IsAbiList (raw : Json) (items : List Json) : Prop :=
  ∃ document, documentOf raw = .ok document ∧ document.field? "abi" = some (.arr items)

/-- What can be relied on in an artifact whose ABI list has some items. -/
structure Sound (items : List Json) (artifact : Artifact) : Prop where
  length : artifact.abi.length = items.length
  entry : ∀ (position : Nat) item entry, items[position]? = some item →
    artifact.abi[position]? = some entry → SoundEntry item position entry
  sole : ∀ kind ∈ EntryKind.singletons, (artifact.abi.map Entry.kind).count kind ≤ 1
  name : artifact.name ≠ []
  bytecode : ∀ code, artifact.bytecode = some code →
    ∃ digits : Text, digits ≠ [] ∧ code.hex = "0x" ++ digits

theorem digits_of_loadBytecode {document : Json} {code : Bytecode}
    (h : loadBytecode document = .ok (some code)) :
    ∃ digits : Text, digits ≠ [] ∧ code.hex = "0x" ++ digits := by
  obtain ⟨text, -, hcode⟩ := loadBytecode_ok h
  obtain ⟨hne, -, refs, -, rfl⟩ := Bytecode.ofText?_eq_some.mp hcode
  exact ⟨_, hne, rfl⟩

/-- Everything that comes before entries are counted passes: the checks of the document, the
choice of the name, and reading each item of the ABI list. -/
inductive ReadsItems (raw : Json) (name : Option Text) (items : List Json) : Prop
  | intro {document : Json} {title : Text} {entries : List Entry} :
      documentOf raw = .ok document → check Shape.document document [] = .ok () →
      checkTexts document = .ok () → contractName document name = .ok title →
      abiPart document = .ok items → loadEntries 0 items = .ok entries →
      ReadsItems raw name items

theorem sound_of_spells {document : Json} {name : Option Text} {artifact : Artifact}
    (h : SpellsArtifact document name artifact) :
    ∃ items, document.field? "abi" = some (.arr items) ∧ artifact.Sound items := by
  obtain ⟨items, hitems, hentries⟩ := h.abi
  refine ⟨items, hitems, ?_, ?_, ?_, (contractName_ok h.name).1, ?_⟩
  · rw [← hentries.length_eq, List.length_zipIdx]
  · intro position item entry hitem hentry
    exact (spells_at hentries hitem hentry).sound
  · intro kind hkind
    exact checkSole_eq_ok.mp (forM_eq_ok.mp h.sole kind hkind)
  · intro code hcode
    exact digits_of_loadBytecode (hcode ▸ h.bytecode)

/-- The kinds of the entries that are read are those that the items declare. -/
theorem kinds_of_loadEntries {index : Nat} {items : List Json} {entries : List Entry}
    {kinds : List EntryKind} (h : loadEntries index items = .ok entries)
    (hkinds : List.Forall₂ Declares items kinds) : entries.map Entry.kind = kinds := by
  induction hkinds generalizing index entries with
  | nil =>
    cases h
    rfl
  | @cons item kind rest kinds hdeclares _ ih =>
    simp only [loadEntries, bind_eq_ok, pure_eq_ok, Except.ok.injEq] at h
    obtain ⟨entry, hentry, others, hothers, rfl⟩ := h
    have hkind := (loadEntry_ok hentry).kindOf_eq
    rw [kindOf_of_declares hdeclares] at hkind
    rw [List.map_cons, ih hothers, Except.ok.inj hkind]

/-- If one of the kinds of which there is at most one comes twice, loading stops at the second
entry of the first such kind. -/
theorem load_of_repeated {raw : Json} {name : Option Text} {items : List Json}
    {kinds : List EntryKind} (hreads : ReadsItems raw name items)
    (hkinds : List.Forall₂ Declares items kinds)
    (hrepeated : ∃ kind ∈ EntryKind.singletons, 1 < kinds.count kind) :
    ∃ earlier kind later position, EntryKind.singletons = earlier ++ kind :: later ∧
      (∀ other ∈ earlier, kinds.count other ≤ 1) ∧ IsSecond kinds kind position ∧
      load raw name = .error (.invalidArtifact
        (Location.write [.key "abi", .index position]) (.repeatedEntry kind)) := by
  obtain @⟨document, title, entries, hdocument, hcheck, htexts, htitle, hitems, hentries⟩ := hreads
  obtain rfl := kinds_of_loadEntries hentries hkinds
  have hindex (position : Nat) (entry : Entry) (hentry : entries[position]? = some entry) :
      entry.index = position := by
    obtain ⟨item, -, hspells⟩ := exists_item_at (loadEntries_ok hentries) hentry
    exact hspells.index_eq
  cases hsole : EntryKind.singletons.forM (checkSole entries) with
  | ok done =>
    obtain ⟨kind, hkind, hcount⟩ := hrepeated
    have hle := checkSole_eq_ok.mp (forM_eq_ok.mp hsole kind hkind)
    exact absurd hcount (Nat.not_lt.mpr hle)
  | error fault =>
    obtain ⟨earlier, kind, later, heq, hearlier, hfault⟩ := forM_eq_error.mp hsole
    obtain ⟨position, hsecond, rfl⟩ := checkSole_eq_error hindex hfault
    refine ⟨earlier, kind, later, position, heq, ?_, hsecond, ?_⟩
    · exact fun other hother => checkSole_eq_ok.mp (hearlier other hother)
    · rw [load, Draft.ofJson, hdocument, ok_bind, hcheck, ok_bind, htexts, ok_bind, htitle,
        ok_bind, hitems, ok_bind, hentries, ok_bind, hsole]
      rfl

/-- A loaded artifact can be relied on; and if everything that comes before passes, a second entry
of one of the kinds of which there is at most one is refused at its position, for the first such
kind. -/
theorem sound_of_load (raw : Json) (name : Option Text) :
    (∀ artifact, load raw name = .ok artifact →
      ∃ items, IsAbiList raw items ∧ artifact.Sound items) ∧
    ∀ items kinds, ReadsItems raw name items → List.Forall₂ Declares items kinds →
      (∃ kind ∈ EntryKind.singletons, 1 < kinds.count kind) →
      ∃ earlier kind later position, EntryKind.singletons = earlier ++ kind :: later ∧
        (∀ other ∈ earlier, kinds.count other ≤ 1) ∧ IsSecond kinds kind position ∧
        load raw name = .error (.invalidArtifact
          (Location.write [.key "abi", .index position]) (.repeatedEntry kind)) := by
  refine ⟨fun artifact h => ?_, fun items kinds => load_of_repeated⟩
  obtain ⟨document, hdocument, -, hspelled⟩ := load_ok h
  obtain ⟨items, hitems, hsound⟩ := sound_of_spells hspelled
  exact ⟨items, ⟨document, hdocument, hitems⟩, hsound⟩

/-- A contract with two entries, and an ABI list with a second fallback function at its end. -/
theorem sound_of_load_fallback :
    (∃ items, IsAbiList (.obj [("contractName", .str "Vault"), ("abi", .arr [
        .obj [("name", .str "pay"), ("inputs", .arr [.obj [("type", .str "uint8[2]")]])],
        .obj [("type", .str "receive")]])]) items ∧
      Sound items ⟨"Vault", [.function ⟨0, "pay",
        [⟨[], .array (some 2) (.elementary (.uint (some 8))), false, none⟩], [], .nonpayable⟩,
        .receive ⟨1⟩], none, []⟩) ∧
    ∃ earlier kind later position, EntryKind.singletons = earlier ++ kind :: later ∧
      (∀ other ∈ earlier, [EntryKind.fallback, .receive, .fallback].count other ≤ 1) ∧
      IsSecond [.fallback, .receive, .fallback] kind position ∧
      load (.arr [.obj [("type", .str "fallback")], .obj [("type", .str "receive")],
          .obj [("type", .str "fallback")]]) (some "Vault") =
        .error (.invalidArtifact (Location.write [.key "abi", .index position])
          (.repeatedEntry kind)) := by
  constructor
  · exact (sound_of_load _ none).1 _ rfl
  · refine (sound_of_load _ (some "Vault")).2 _ _ (.intro rfl rfl rfl rfl rfl rfl) ?_ ?_
    · exact .cons (.named rfl) (.cons (.named rfl) (.cons (.named rfl) .nil))
    · exact ⟨.fallback, by decide, by decide⟩

end AbiBindings.Artifact
