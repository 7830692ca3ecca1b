import AbiBindings.Proofs.AbiType.Encodable
import AbiBindings.Proofs.AbiType.Supported
import AbiBindings.Proofs.Json.Sorted

/-!
Types as JSON. No two types that reading can give have the same JSON, component names included,
and none of the numbers in it is longer than numbers can be.
-/

namespace AbiBindings

def Json.CoversTypes (limit : Option Nat) : Prop :=
  ∀ bound, limit = some bound → Json.digitLimit ≤ bound

theorem Json.coversTypes_none : Json.CoversTypes none := fun _ hbound => by cases hbound

theorem Text.length_ofNat_le (n : Nat) : (Text.ofNat n).length ≤ n + 1 := by
  induction n using Nat.strongRecOn with
  | ind n ih =>
    by_cases hn : n < 10
    · rw [ofNat_of_lt_ten hn]
      simp
    · have hrec := ih (n / 10) (by omega)
      rw [ofNat_of_ten_le (by omega), List.length_append, List.length_singleton]
      omega

namespace Elementary

def kindWord : Elementary → Text
  | uint _ => "uint"
  | int _ => "int"
  | address _ => "address"
  | bool _ => "bool"
  | fixedBytes _ => "fixed_bytes"
  | bytes => "bytes"
  | string => "string"
  | foreign kind _ => kind
  | absent => []

theorem field?_kind {kind : Elementary} (h : kind.Supported) :
    kind.toJson.field? "kind" = some (.str kind.kindWord) := by
  cases kind with
  | absent => exact h.elim
  | _ => rfl

section

variable {limit : Option Nat}

theorem plain_small (hlimit : Json.CoversTypes limit) {n : Nat} (hn : n ≤ 256) :
    (Json.int n).Plain limit := by
  intro bound hbound
  have hlength := Text.length_ofNat_le n
  have hcovers := hlimit bound hbound
  have hvalue : Json.digitLimit = 4300 := rfl
  rw [Int.natAbs_natCast]
  omega

theorem plain_wordJson (kind : Text) {bits : Option Int}
    (hbits : ∀ n ∈ bits, (Json.int n).Plain limit) : (wordJson kind bits).Plain limit := by
  have hkeys : ("kind" : Text) ≠ "bits" := by decide
  unfold wordJson
  cases bits with
  | none => simp [hkeys]
  | some n => simpa [hkeys] using hbits n rfl

theorem plain_toJson (hlimit : Json.CoversTypes limit) {kind : Elementary} (h : kind.Supported) :
    kind.toJson.Plain limit := by
  cases kind with
  | uint bits =>
    obtain ⟨n, rfl, -, -, hn⟩ := h
    rw [toJson]
    apply plain_wordJson
    rintro _ ⟨⟩
    exact plain_small hlimit hn
  | int bits =>
    obtain ⟨n, rfl, -, -, hn⟩ := h
    rw [toJson]
    apply plain_wordJson
    rintro _ ⟨⟩
    exact plain_small hlimit hn
  | address bits =>
    obtain rfl : bits = some 160 := h
    rw [toJson]
    apply plain_wordJson
    rintro _ ⟨⟩
    exact plain_small hlimit (n := 160) (by omega)
  | bool bits =>
    obtain rfl : bits = none := h
    rw [toJson]
    apply plain_wordJson
    rintro _ ⟨⟩
  | fixedBytes size =>
    obtain ⟨n, rfl, -, hn⟩ := h
    have hsize := plain_small hlimit (Nat.le_trans hn (by omega : 32 ≤ 256))
    rw [toJson, Json.plain_obj]
    exact ⟨by simp; decide, by simpa using hsize⟩
  | bytes => simp [toJson]
  | string => simp [toJson]
  | foreign kind bits => exact h.elim
  | absent => exact h.elim

end

theorem sorted_wordJson {kind kind' : Text} {bits bits' : Option Int}
    (h : (wordJson kind bits).sorted = (wordJson kind' bits').sorted) : bits = bits' := by
  have hplain (kind : Text) (bits : Option Int) : (wordJson kind bits).Plain none :=
    plain_wordJson kind fun _ _ _ hbound => by cases hbound
  have hmatch : Json.Matches _ _ := ⟨hplain kind bits, hplain kind' bits', h⟩
  have hbits := hmatch.field "bits" rfl rfl
  cases bits with
  | none =>
    cases bits' with
    | none => rfl
    | some n' => cases hbits
  | some n =>
    cases bits' with
    | none => cases hbits
    | some n' => exact congrArg some (Json.int.inj hbits)

theorem toJson_injective {kind kind' : Elementary} (h : kind.Supported) (h' : kind'.Supported)
    (hsorted : kind.toJson.sorted = kind'.toJson.sorted) : kind = kind' := by
  have hplain {kind : Elementary} (h : kind.Supported) : kind.toJson.Plain none :=
    plain_toJson Json.coversTypes_none h
  have hmatch : Json.Matches _ _ := ⟨hplain h, hplain h', hsorted⟩
  have hword := hmatch.text "kind" (field?_kind h) (field?_kind h')
  cases kind with
  | uint bits =>
    cases kind' with
    | uint bits' => rw [sorted_wordJson hsorted]
    | foreign => exact h'.elim
    | _ => exact absurd hword (by simp only [kindWord]; decide)
  | int bits =>
    cases kind' with
    | int bits' => rw [sorted_wordJson hsorted]
    | foreign => exact h'.elim
    | _ => exact absurd hword (by simp only [kindWord]; decide)
  | address bits =>
    cases kind' with
    | address bits' => rw [sorted_wordJson hsorted]
    | foreign => exact h'.elim
    | _ => exact absurd hword (by simp only [kindWord]; decide)
  | bool bits =>
    cases kind' with
    | bool bits' => rw [sorted_wordJson hsorted]
    | foreign => exact h'.elim
    | _ => exact absurd hword (by simp only [kindWord]; decide)
  | fixedBytes size =>
    cases kind' with
    | fixedBytes size' =>
      rw [Json.int.inj (hmatch.field "size" rfl rfl)]
    | foreign => exact h'.elim
    | _ => exact absurd hword (by simp only [kindWord]; decide)
  | bytes =>
    cases kind' with
    | bytes => rfl
    | foreign => exact h'.elim
    | _ => exact absurd hword (by simp only [kindWord]; decide)
  | string =>
    cases kind' with
    | string => rfl
    | foreign => exact h'.elim
    | _ => exact absurd hword (by simp only [kindWord]; decide)
  | foreign kind bits => exact h.elim
  | absent => exact h.elim

theorem kindWord_not_mem {kind : Elementary} (h : kind.Supported) :
    kind.kindWord ∉ (["array", "fixed_array", "tuple"] : List Text) := by
  cases kind with
  | foreign kind bits => exact h.elim
  | _ => simp only [kindWord]; decide

end Elementary

namespace AbiType

def kindWord : AbiType → Text
  | elementary kind => kind.kindWord
  | array none _ => "array"
  | array (some _) _ => "fixed_array"
  | tuple _ => "tuple"

theorem field?_kind {type : AbiType} (h : type.Supported) :
    type.toJson.field? "kind" = some (.str type.kindWord) := by
  cases type with
  | elementary kind =>
    rw [Supported] at h
    rw [toJson]
    exact Elementary.field?_kind h
  | array length item => cases length <;> (rw [toJson]; rfl)
  | tuple parts => rw [toJson]; rfl

theorem plain_toJson {limit : Option Nat} (hlimit : Json.CoversTypes limit) {type : AbiType}
    (h : type.Supported) : type.toJson.Plain limit := by
  induction type using AbiType.induct with
  | elementary kind =>
    rw [Supported] at h
    rw [toJson]
    exact Elementary.plain_toJson hlimit h
  | array length item ih =>
    have hkeys : ("kind" : Text) ≠ "item" ∧ ("kind" : Text) ≠ "length" ∧
        ("length" : Text) ≠ "item" := by decide
    cases length with
    | none =>
      rw [Supported] at h
      rw [toJson]
      simpa [hkeys] using ih h
    | some length =>
      rw [Supported] at h
      obtain ⟨⟨n, rfl, -, hn⟩, hitem⟩ := h
      have hlength : (Json.int n).Plain limit := by
        intro bound hbound
        rw [Int.natAbs_natCast]
        exact Nat.le_trans hn (hlimit bound hbound)
      rw [toJson]
      simpa [hkeys] using ⟨hlength, ih hitem⟩
  | tuple parts ih =>
    have hkeys : ("kind" : Text) ≠ "components" ∧ ("name" : Text) ≠ "type" := by decide
    rw [supported_tuple] at h
    have hparts : ∀ item ∈ toJsons parts, item.Plain limit := by
      rw [toJsons_eq_map, List.forall_mem_map]
      intro part hpart
      simpa [hkeys] using ih part hpart (h part hpart)
    rw [toJson]
    simpa [hkeys] using hparts

theorem plain_toJson_none {type : AbiType} (h : type.Supported) : type.toJson.Plain none :=
  plain_toJson Json.coversTypes_none h

theorem matches_toJson {type type' : AbiType} (h : type.Supported) (h' : type'.Supported)
    (hsorted : type.toJson.sorted = type'.toJson.sorted) : type.toJson.Matches type'.toJson :=
  ⟨plain_toJson_none h, plain_toJson_none h', hsorted⟩

theorem sorted_kindWord {type type' : AbiType} (h : type.Supported) (h' : type'.Supported)
    (hsorted : type.toJson.sorted = type'.toJson.sorted) : type.kindWord = type'.kindWord :=
  (matches_toJson h h' hsorted).text "kind" (field?_kind h) (field?_kind h')

theorem field?_item (length : Option Int) (item : AbiType) :
    (array length item).toJson.field? "item" = some item.toJson := by
  cases length <;> (rw [toJson]; rfl)

theorem field?_length (length : Option Int) (item : AbiType) :
    (array length item).toJson.field? "length" = length.map Json.int := by
  cases length <;> (rw [toJson]; rfl)

theorem Supported.item {length : Option Int} {item : AbiType} (h : (array length item).Supported) :
    item.Supported := by
  cases length with
  | none => rwa [Supported] at h
  | some n =>
    rw [Supported] at h
    exact h.2

/-- Arrays are told apart by their lengths and the JSON of their items. -/
theorem sorted_array {length length' : Option Int} {item item' : AbiType}
    (h : (array length item).Supported) (h' : (array length' item').Supported)
    (hsorted : (array length item).toJson.sorted = (array length' item').toJson.sorted) :
    length = length' ∧ item.toJson.sorted = item'.toJson.sorted := by
  have hplain := plain_toJson_none h
  have hplain' := plain_toJson_none h'
  constructor
  · have hlength := congrArg (fun j => Json.field? j "length") hsorted
    simp only [Json.field?_sorted hplain, Json.field?_sorted hplain', field?_length] at hlength
    cases length with
    | none =>
      cases length' with
      | none => rfl
      | some n' => cases hlength
    | some n =>
      cases length' with
      | none => cases hlength
      | some n' => exact congrArg some (Json.int.inj (Option.some.inj hlength))
  · exact (matches_toJson h h' hsorted).field "item" (field?_item length item)
      (field?_item length' item')

theorem sorted_component {name name' : Text} {json json' : Json} (h : json.Plain none)
    (h' : json'.Plain none) (hsorted : (Json.obj [("name", .str name), ("type", json)]).sorted =
      (Json.obj [("name", .str name'), ("type", json')]).sorted) :
    name = name' ∧ json.sorted = json'.sorted := by
  have hkeys : ("name" : Text) ≠ "type" := by decide
  have hplain : ∀ name {json : Json}, json.Plain none →
      (Json.obj [("name", .str name), ("type", json)]).Plain none := by
    intro name json h
    simpa [hkeys] using h
  have hmatch : Json.Matches _ _ := ⟨hplain name h, hplain name' h', hsorted⟩
  exact ⟨hmatch.text "name" rfl rfl, hmatch.field "type" rfl rfl⟩

/-- Types that reading can give are told apart by their JSON, even as a map. -/
theorem toJson_injective {type type' : AbiType} (h : type.Supported) (h' : type'.Supported)
    (hsorted : type.toJson.sorted = type'.toJson.sorted) : type = type' := by
  induction type using AbiType.induct generalizing type' with
  | elementary kind =>
    have hword := sorted_kindWord h h' hsorted
    have hother := Elementary.kindWord_not_mem h
    rw [kindWord] at hword
    rw [hword] at hother
    cases type' with
    | elementary kind' =>
      rw [Elementary.toJson_injective h h' hsorted]
    | array length' item' => cases length' <;> exact absurd (by simp [kindWord]) hother
    | tuple parts' => exact absurd (by simp [kindWord]) hother
  | array length item ih =>
    have hword := sorted_kindWord h h' hsorted
    cases type' with
    | elementary kind' =>
      have hother := Elementary.kindWord_not_mem h'
      rw [← kindWord, ← hword] at hother
      cases length <;> exact absurd (by simp [kindWord]) hother
    | array length' item' =>
      obtain ⟨hlength, hitem⟩ := sorted_array h h' hsorted
      rw [hlength, ih h.item h'.item hitem]
    | tuple parts' => cases length <;> exact absurd hword (by simp only [kindWord]; decide)
  | tuple parts ih =>
    have hword := sorted_kindWord h h' hsorted
    cases type' with
    | elementary kind' =>
      have hother := Elementary.kindWord_not_mem h'
      rw [← kindWord, ← hword] at hother
      exact absurd (by simp [kindWord]) hother
    | array length' item' =>
      cases length' <;> exact absurd hword (by simp only [kindWord]; decide)
    | tuple parts' =>
      have hparts := (matches_toJson h h' hsorted).field "components" (by rw [toJson]; rfl)
        (by rw [toJson]; rfl)
      rw [toJsons_eq_map, toJsons_eq_map] at hparts
      rw [supported_tuple] at h h'
      congr 1
      refine Json.eq_of_sorted_map (fun part hpart part' hpart' hsorted => ?_) hparts
      obtain ⟨hname, htype⟩ := sorted_component (plain_toJson_none (h part hpart))
        (plain_toJson_none (h' part' hpart')) hsorted
      exact Prod.ext hname (ih part hpart (h part hpart) (h' part' hpart') htype)

end AbiType

end AbiBindings
