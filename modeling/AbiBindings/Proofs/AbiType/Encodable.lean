import AbiBindings.Proofs.AbiType.Supported
import AbiBindings.Proofs.Json.Encodable

/-!
Types as written text. The canonical spelling of a type that reading gives has a UTF-8 form, and so
has its tree if the names of components have one: nothing else in a type comes from outside.
-/

namespace AbiBindings

open Text (Encodable)

theorem Elementary.Supported.encodable_canonical {kind : Elementary} (h : kind.Supported) :
    Encodable kind.canonical := by
  cases kind with
  | uint bits | int bits =>
    obtain ⟨n, rfl, -⟩ := h
    simp [Elementary.canonical, AbiType.sizeText]
  | foreign kind bits => cases h
  | absent => cases h
  | _ => simp [Elementary.canonical]

theorem Elementary.Supported.allEncodable_toJson {kind : Elementary} (h : kind.Supported) :
    kind.toJson.AllEncodable := by
  have hword (word : String) (bits : Option Int) : (wordJson word bits).AllEncodable := by
    cases bits <;> simp [wordJson]
  cases kind with
  | uint bits | int bits | address bits | bool bits => exact hword _ bits
  | foreign kind bits => cases h
  | absent => cases h
  | _ => simp [Elementary.toJson]

namespace AbiType

mutual

/-- No name of a component, at any depth, holds a surrogate. -/
def NamesEncodable : AbiType → Prop
  | elementary _ => True
  | array _ item => item.NamesEncodable
  | tuple parts => AllNamesEncodable parts

def AllNamesEncodable : List (Text × AbiType) → Prop
  | [] => True
  | (name, type) :: rest => Encodable name ∧ type.NamesEncodable ∧ AllNamesEncodable rest

end

@[simp] theorem namesEncodable_elementary (kind : Elementary) :
    (elementary kind).NamesEncodable := trivial

@[simp] theorem namesEncodable_tuple {parts : List (Text × AbiType)} :
    (tuple parts).NamesEncodable ↔ ∀ part ∈ parts, Encodable part.1 ∧ part.2.NamesEncodable := by
  rw [NamesEncodable]
  induction parts with
  | nil => simp [AllNamesEncodable]
  | cons part rest ih =>
    obtain ⟨name, type⟩ := part
    rw [AllNamesEncodable, ih, List.forall_mem_cons, and_assoc]

@[simp] theorem namesEncodable_unnamedTuple {types : List AbiType} :
    (unnamedTuple types).NamesEncodable ↔ ∀ type ∈ types, type.NamesEncodable := by
  simp [unnamedTuple]

theorem encodable_argumentList {types : List AbiType} :
    Encodable (argumentList types) ↔ ∀ type ∈ types, Encodable type.canonical := by
  have hcomma := Text.encodable_ofString ","
  simp only [argumentList, Text.encodable_append, Text.encodable_ofString,
    Text.encodable_join hcomma, List.forall_mem_map, true_and, and_true]

theorem Supported.encodable_canonical {type : AbiType} (h : type.Supported) :
    Encodable type.canonical := by
  induction type using AbiType.induct with
  | elementary kind => exact Elementary.Supported.encodable_canonical h
  | array length item ih =>
    cases length with
    | none =>
      rw [Supported] at h
      simp [canonical, ih h]
    | some n =>
      rw [Supported] at h
      simp [canonical, ih h.2]
  | tuple parts ih =>
    rw [supported_tuple] at h
    rw [canonical_tuple, encodable_argumentList, typesOf, List.forall_mem_map]
    intro part hpart
    exact ih part hpart (h part hpart)

theorem toJsons_eq_map (parts : List (Text × AbiType)) :
    toJsons parts = parts.map fun part =>
      .obj [("name", .str part.1), ("type", part.2.toJson)] := by
  induction parts with
  | nil => rfl
  | cons part rest ih =>
    obtain ⟨name, type⟩ := part
    rw [toJsons, ih, List.map_cons]

/-- The tree of a type has a UTF-8 form if its names have one. -/
theorem Supported.allEncodable_toJson {type : AbiType} (h : type.Supported)
    (hnames : type.NamesEncodable) : type.toJson.AllEncodable := by
  induction type using AbiType.induct with
  | elementary kind => exact Elementary.Supported.allEncodable_toJson h
  | array length item ih =>
    cases length with
    | none =>
      rw [Supported] at h
      simp [toJson, ih h hnames]
    | some n =>
      rw [Supported] at h
      simp [toJson, ih h.2 hnames]
  | tuple parts ih =>
    rw [supported_tuple] at h
    rw [namesEncodable_tuple] at hnames
    have hparts : ∀ part ∈ parts,
        (Json.obj [("name", .str part.1), ("type", part.2.toJson)]).AllEncodable := by
      intro part hpart
      obtain ⟨hname, htype⟩ := hnames part hpart
      simp [hname, ih part hpart (h part hpart) htype]
    have hlist : ∀ item ∈ toJsons parts, item.AllEncodable := by
      rw [toJsons_eq_map, List.forall_mem_map]
      exact hparts
    simpa [toJson] using hlist

end AbiType

end AbiBindings
