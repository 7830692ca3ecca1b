import AbiBindings.Proofs.Artifact.Spelling
import Mathlib.Logic.Relation

/-!
Interchangeable documents. A list may stand for a document, a name may be given outside or inside,
and each part has its spellings. One replacement changes what stands under one key at most, and the
part that is read there loads the same; so any number of them, anywhere and in either direction,
lead from documents that load to documents that load the same artifact.
-/

namespace AbiBindings.Artifact

open Text (Encodable)
open Outcome

inductive Respelled : (key : Text) → Json → Json → Prop
  /-- An entry without a kind is one of a function. -/
  | typed {before after : List Json} {entry entry' : List (Text × Json)} :
      Json.lookup entry "type" = none → Json.Sets "type" (.str "function") entry entry' →
      Respelled "abi" (.arr (before ++ .obj entry :: after)) (.arr (before ++ .obj entry' :: after))
  /-- Bytecode may stand inside an object. -/
  | inside (code : Text) : Respelled "bytecode" (.str code) (.obj [("object", .str code)])
  /-- Digits may come with a mark. -/
  | marked {mark code : Text} : mark ∈ Bytecode.marks → Bytecode.Unmarked code →
      Respelled "bytecode" (.str code) (.str (mark ++ code))
  /-- So may digits inside an object. -/
  | markedInside {mark code : Text} {object object' : List (Text × Json)} :
      mark ∈ Bytecode.marks → Bytecode.Unmarked code →
      Json.lookup object "object" = some (.str code) →
      Json.Sets "object" (.str (mark ++ code)) object object' →
      Respelled "bytecode" (.obj object) (.obj object')
  /-- The address of a network may stand inside an object. -/
  | address (before after : List (Text × Json)) (network address : Text) :
      Respelled "networks" (.obj (before ++ (network, .str address) :: after))
        (.obj (before ++ (network, .obj [("address", .str address)]) :: after))

/-- Two ways to give a document, each with a name from outside, that differ in one place. -/
inductive Replaced : Json × Option Text → Json × Option Text → Prop
  /-- An ABI list alone stands for a document. -/
  | bare (items : List Json) (name : Option Text) :
      Replaced (.arr items, name) (.obj [("abi", .arr items)], name)
  /-- A name from outside may be given inside, if the one inside could be there. -/
  | named {fields fields' : List (Text × Json)} {name : Text} : name ≠ [] →
      OwnNamePasses fields → Json.Sets "contractName" (.str name) fields fields' →
      Replaced (.obj fields, some name) (.obj fields', none)
  /-- What stands under a key may be spelled in another way. -/
  | field {fields fields' : List (Text × Json)} {key : Text} {value value' : Json}
      (name : Option Text) : Json.lookup fields key = some value →
      Respelled key value value' → Json.Sets key value' fields fields' →
      Replaced (.obj fields, name) (.obj fields', name)

/-- Documents that differ in their bytecode alone have the same parts if that loads the same. -/
theorem partsLoad_of_bytecode {document document' : Json}
    (hother : ∀ key : Text, key ≠ "bytecode" → document'.field? key = document.field? key)
    (h : ∀ bytecode, BytecodeLoads document' bytecode ↔ BytecodeLoads document bytecode)
    (name : Option Text) (artifact : Artifact) :
    PartsLoad document' name artifact ↔ PartsLoad document name artifact := by
  rw [partsLoad_iff, partsLoad_iff, NameLoads.congr (hother "contractName" (by decide)),
    AbiLoads.congr (hother "abi" (by decide)), h,
    NetworksLoad.congr (hother "networks" (by decide))]

/-- A document with a part in another spelling has the same parts. -/
theorem Respelled.parts_iff {key : Text} {value value' : Json} (h : Respelled key value value')
    {fields fields' : List (Text × Json)} (hvalue : (Json.obj fields).field? key = some value)
    (hset : Json.Sets key value' fields fields') (name : Option Text) (artifact : Artifact) :
    PartsLoad (.obj fields') name artifact ↔ PartsLoad (.obj fields) name artifact := by
  have hother (other : Text) (hne : other ≠ key) :
      (Json.obj fields').field? other = (Json.obj fields).field? other := hset.lookup_of_ne hne
  have hself : (Json.obj fields').field? key = some value' := hset.lookup_self
  cases h with
  | typed habsent htyped =>
    rw [partsLoad_iff, partsLoad_iff, NameLoads.congr (hother "contractName" (by decide)),
      BytecodeLoads.congr (hother "bytecode" (by decide)),
      NetworksLoad.congr (hother "networks" (by decide)),
      abiLoads_typed habsent htyped hvalue hself]
  | inside code =>
    have hobject : Json.lookup [("object", Json.str code)] "object" = some (.str code) :=
      Json.lookup_cons_self _ _ _
    refine partsLoad_of_bytecode hother (fun bytecode => ?_) name artifact
    rw [bytecodeLoads_obj hself hobject, bytecodeLoads_str hvalue, checked_obj,
      List.forall_mem_singleton]
  | marked hmark hunmarked =>
    refine partsLoad_of_bytecode hother (fun bytecode => ?_) name artifact
    rw [bytecodeLoads_str hself, bytecodeLoads_str hvalue, checked_marked hmark,
      hunmarked.ofText?_append hmark]
  | markedInside hmark hunmarked hobject hmarked =>
    refine partsLoad_of_bytecode hother (fun bytecode => ?_) name artifact
    rw [bytecodeLoads_obj hself hmarked.lookup_self, bytecodeLoads_obj hvalue hobject,
      checked_object_marked hmark hobject hmarked, hunmarked.ofText?_append hmark]
  | address before after network address =>
    rw [partsLoad_iff, partsLoad_iff, NameLoads.congr (hother "contractName" (by decide)),
      AbiLoads.congr (hother "abi" (by decide)),
      BytecodeLoads.congr (hother "bytecode" (by decide)), networksLoad_address hvalue hself]

/-- A document that has its name inside has the same parts as one that is given it. -/
theorem partsLoad_named {fields fields' : List (Text × Json)} {name : Text} (hne : name ≠ [])
    (hown : OwnNamePasses fields) (hset : Json.Sets "contractName" (.str name) fields fields')
    (artifact : Artifact) :
    PartsLoad (.obj fields') none artifact ↔ PartsLoad (.obj fields) (some name) artifact := by
  have hother (other : Text) (hne : other ≠ "contractName") :
      (Json.obj fields').field? other = (Json.obj fields).field? other := hset.lookup_of_ne hne
  have hself : (Json.obj fields').field? "contractName" = some (.str name) := hset.lookup_self
  rw [partsLoad_iff, partsLoad_iff, AbiLoads.congr (hother "abi" (by decide)),
    BytecodeLoads.congr (hother "bytecode" (by decide)),
    NetworksLoad.congr (hother "networks" (by decide)), nameLoads_own hne hself,
    nameLoads_given hown hne]

/-- One replacement changes nothing about what loads. -/
theorem Replaced.load_iff {given given' : Json × Option Text} (h : Replaced given given')
    (artifact : Artifact) :
    load given.1 given.2 = .ok artifact ↔ load given'.1 given'.2 = .ok artifact := by
  cases h with
  | bare items name => rfl
  | named hne hown hset =>
    rw [load_obj_eq_ok, load_obj_eq_ok, partsLoad_named hne hown hset]
  | field name hvalue hrespelled hset =>
    rw [load_obj_eq_ok, load_obj_eq_ok, hrespelled.parts_iff hvalue hset]

/-- Documents that any number of replacements lead between, in either direction. -/
abbrev Interchangeable : Json × Option Text → Json × Option Text → Prop :=
  Relation.EqvGen Replaced

theorem Interchangeable.load_iff {given given' : Json × Option Text}
    (h : Interchangeable given given') (artifact : Artifact) :
    load given.1 given.2 = .ok artifact ↔ load given'.1 given'.2 = .ok artifact := by
  induction h with
  | rel _ _ hstep => exact hstep.load_iff artifact
  | refl _ => exact Iff.rfl
  | symm _ _ _ ih => exact ih.symm
  | trans _ _ _ _ _ ihfirst ihsecond => exact ihfirst.trans ihsecond

/-- Loading is refused exactly if there is nothing to load. -/
theorem refused_iff {raw : Json} {name : Option Text} :
    (∃ fault, load raw name = .error fault) ↔ ∀ artifact, load raw name ≠ .ok artifact := by
  cases load raw name with
  | error fault => simp
  | ok artifact => simp

/-- Interchangeable documents load the same artifact, or are both refused. -/
theorem load_interchangeable {given given' : Json × Option Text}
    (h : Interchangeable given given') :
    (∀ artifact, load given.1 given.2 = .ok artifact ↔ load given'.1 given'.2 = .ok artifact) ∧
      ((∃ fault, load given.1 given.2 = .error fault) ↔
        ∃ fault, load given'.1 given'.2 = .error fault) := by
  have hload := h.load_iff
  refine ⟨hload, ?_⟩
  rw [refused_iff, refused_iff]
  exact forall_congr' fun artifact => not_congr (hload artifact)

/-- A document in its shortest spelling under a name from outside, and with everything spelled
out. -/
theorem load_interchangeable_box :
    let address : Json := .str "0x0000000000000000000000000000000000000001"
    let short : Json := .obj [("abi", .arr [.obj [("name", .str "open")]]),
      ("bytecode", .str "6001"), ("networks", .obj [("1", address)])]
    let long : Json := .obj [
      ("abi", .arr [.obj [("name", .str "open"), ("type", .str "function")]]),
      ("bytecode", .obj [("object", .str "0x6001")]),
      ("networks", .obj [("1", .obj [("address", address)])]), ("contractName", .str "Box")]
    Interchangeable (short, some "Box") (long, none) ∧
      ∃ artifact, load short (some "Box") = .ok artifact ∧ load long none = .ok artifact := by
  intro address short long
  have hunmarked : Bytecode.Unmarked "6001" := ⟨rfl, by decide⟩
  have htyped : Respelled "abi" (.arr [.obj [("name", .str "open")]])
      (.arr [.obj [("name", .str "open"), ("type", .str "function")]]) :=
    @Respelled.typed [] [] _ _ rfl (Json.sets_put _ _ _)
  have hmarked : Respelled "bytecode" (.str "6001") (.str "0x6001") :=
    @Respelled.marked "0x" _ (by decide) hunmarked
  have hnetwork : Respelled "networks" (.obj [("1", address)])
      (.obj [("1", .obj [("address", address)])]) := .address [] [] "1" _
  have hlinked : Interchangeable (short, some "Box") (long, none) := by
    refine .trans _ _ _ (.rel _ _ (.field _ (by rfl) htyped (Json.sets_put _ _ _))) ?_
    refine .trans _ _ _ (.rel _ _ (.field _ (by rfl) hmarked (Json.sets_put _ _ _))) ?_
    refine .trans _ _ _ (.rel _ _ (.field _ (by rfl) (.inside _) (Json.sets_put _ _ _))) ?_
    refine .trans _ _ _ (.rel _ _ (.field _ (by rfl) hnetwork (Json.sets_put _ _ _))) ?_
    refine .rel _ _ (.named (by decide) ?_ (Json.sets_put _ _ _))
    intro value hvalue
    cases hvalue
  obtain ⟨artifact, hload⟩ : ∃ artifact, load short (some "Box") = .ok artifact := ⟨_, rfl⟩
  obtain ⟨hsame, -⟩ := load_interchangeable hlinked
  exact ⟨hlinked, artifact, hload, (hsame artifact).mp hload⟩

end AbiBindings.Artifact
