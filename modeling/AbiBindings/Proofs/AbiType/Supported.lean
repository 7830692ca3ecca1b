import AbiBindings.Proofs.AbiType.Unambiguity

/-!
The types that reading can give. Their sizes are those that the ABI allows, the lengths of their
arrays are positive and no longer than numbers can be, and nothing in them is foreign or absent.
A text whose numbers are short enough spells no other types.
-/

namespace AbiBindings

def Elementary.Supported : Elementary → Prop
  | uint bits | int bits => ∃ n : Nat, bits = some (n : Int) ∧ AbiType.IsIntegerWidth n
  | address bits => bits = some 160
  | bool bits => bits = none
  | fixedBytes size => ∃ n : Nat, size = n ∧ 1 ≤ n ∧ n ≤ 32
  | bytes | string => True
  | foreign _ _ | absent => False

namespace AbiType

/-- A positive number that is not too long to be read. -/
def IsArrayLength (n : Nat) : Prop := 0 < n ∧ (Text.ofNat n).length ≤ Json.digitLimit

mutual

def Supported : AbiType → Prop
  | elementary kind => kind.Supported
  | array none item => item.Supported
  | array (some length) item => (∃ n : Nat, length = n ∧ IsArrayLength n) ∧ item.Supported
  | tuple parts => AllSupported parts

/-- Components whose types reading can give. -/
def AllSupported : List (Text × AbiType) → Prop
  | [] => True
  | (_, type) :: rest => type.Supported ∧ AllSupported rest

end

mutual

/-- Induction on types: a tuple has a property if all its components have it. -/
@[elab_as_elim] theorem induct {motive : AbiType → Prop}
    (elementary : ∀ kind, motive (.elementary kind))
    (array : ∀ length item, motive item → motive (.array length item))
    (tuple : ∀ parts, (∀ part ∈ parts, motive part.2) → motive (.tuple parts)) :
    ∀ type, motive type
  | .elementary kind => elementary kind
  | .array length item => array length item (induct elementary array tuple item)
  | .tuple parts => tuple parts (inductParts elementary array tuple parts)

theorem inductParts {motive : AbiType → Prop}
    (elementary : ∀ kind, motive (.elementary kind))
    (array : ∀ length item, motive item → motive (.array length item))
    (tuple : ∀ parts, (∀ part ∈ parts, motive part.2) → motive (.tuple parts)) :
    ∀ parts : List (Text × AbiType), ∀ part ∈ parts, motive part.2
  | [], _, hmem => absurd hmem List.not_mem_nil
  | (name, type) :: rest, part, hmem => by
    rcases List.mem_cons.mp hmem with rfl | hrest
    · exact induct elementary array tuple type
    · exact inductParts elementary array tuple rest part hrest

end

theorem allSupported_iff {parts : List (Text × AbiType)} :
    AllSupported parts ↔ ∀ part ∈ parts, part.2.Supported := by
  induction parts with
  | nil => simp [AllSupported]
  | cons part rest ih =>
    obtain ⟨name, type⟩ := part
    simp [AllSupported, ih]

theorem supported_tuple {parts : List (Text × AbiType)} :
    (tuple parts).Supported ↔ ∀ part ∈ parts, part.2.Supported := by
  rw [Supported, allSupported_iff]

theorem supported_unnamedTuple {types : List AbiType} :
    (unnamedTuple types).Supported ↔ ∀ type ∈ types, type.Supported := by
  simp [unnamedTuple, supported_tuple]

theorem Named.supported {word : Text} {width : Option Nat} {kind : Elementary}
    (h : Named word width kind) : kind.Supported := by
  cases h with
  | uint hbits => exact ⟨_, rfl, hbits⟩
  | int hbits => exact ⟨_, rfl, hbits⟩
  | fixedBytes hpos hle => exact ⟨_, rfl, hpos, hle⟩
  | bytes => trivial
  | byte => exact ⟨1, rfl, by decide, by decide⟩
  | address => rfl
  | bool => rfl
  | string => trivial

theorem Suffixed.supported {item type : AbiType} {w : Text} (h : Suffixed item w type)
    (hfit : DigitRunsFit w) (hitem : item.Supported) : type.Supported := by
  induction h with
  | done => exact hitem
  | @anyLength item _ w _ ih =>
    have hrest : w <:+: "[]" ++ w := (List.suffix_append _ _).isInfix
    exact ih (hfit.of_isInfix hrest) (by rwa [Supported])
  | @ofLength item _ digits w n hn hpos _ ih =>
    have hrest : w <:+: "[" ++ digits ++ "]" ++ w := (List.suffix_append _ _).isInfix
    have hdigits : digits <:+: "[" ++ digits ++ "]" ++ w :=
      ⟨"[", "]" ++ w, by simp only [List.append_assoc]⟩
    have hlength : IsArrayLength n := by
      refine ⟨hpos, ?_⟩
      rw [← numeral_iff.mp hn]
      exact hfit digits hdigits hn.isDigit
    exact ih (hfit.of_isInfix hrest) (by rw [Supported]; exact ⟨⟨n, rfl, hlength⟩, hitem⟩)

mutual

theorem Derives.supported {components : Json} {w : Text} {type : AbiType} :
    Derives components w type → NumbersFit w components → type.Supported
  | .suffixed (b := b) (s := s) hbase hsuffix, hfit =>
    have hleft : b <:+: b ++ s := (List.prefix_append _ _).isInfix
    have hright : s <:+: b ++ s := (List.suffix_append _ _).isInfix
    hsuffix.supported (hfit.1.of_isInfix hright)
      (DerivesBase.supported hbase ⟨hfit.1.of_isInfix hleft, hfit.2⟩)
termination_by structural h => h

theorem DerivesBase.supported {components : Json} {w : Text} {type : AbiType} :
    DerivesBase components w type → NumbersFit w components → type.Supported
  | .named hnamed _, _ => by
    rw [Supported]
    exact hnamed.supported
  | .emptyList, _ => supported_unnamedTuple.mpr (by simp)
  | .list (w := w) hlist, hfit => by
    have hinner : w <:+: "(" ++ w ++ ")" := ⟨"(", ")", rfl⟩
    exact supported_unnamedTuple.mpr (DerivesList.supported hlist (hfit.1.of_isInfix hinner))
  | .tuple hparts, hfit => by
    rw [supported_tuple]
    refine DerivesComponents.supported hparts ?_ ?_
    · intro fields text hmem htext
      exact hfit.2 text (.here hmem htext)
    · intro fields hmem part hpart
      exact hfit.2 part (.inner hmem hpart)
termination_by structural h => h

theorem DerivesList.supported {w : Text} {types : List AbiType} :
    DerivesList w types → DigitRunsFit w → ∀ type ∈ types, type.Supported
  | .one htype, hfit => by
    have h := Derives.supported htype ⟨hfit, fun _ hpart => by cases hpart⟩
    simpa using h
  | .more (w := w) (v := v) htype hlist, hfit => by
    have hleft : w <:+: w ++ "," ++ v := ⟨[], "," ++ v, by simp⟩
    have hright : v <:+: w ++ "," ++ v := (List.suffix_append _ _).isInfix
    have hfirst :=
      Derives.supported htype ⟨hfit.of_isInfix hleft, fun _ hpart => by cases hpart⟩
    have hothers := DerivesList.supported hlist (hfit.of_isInfix hright)
    simpa using ⟨hfirst, hothers⟩
termination_by structural h => h

theorem DerivesComponents.supported {items : List Json} {parts : List (Text × AbiType)} :
    DerivesComponents items parts →
      (∀ fields text, .obj fields ∈ items → Json.lookup fields "type" = some (.str text) →
        DigitRunsFit text) →
      (∀ fields, .obj fields ∈ items → ∀ part, IsComponentText part (componentsOf fields) →
        DigitRunsFit part) →
      ∀ part ∈ parts, part.2.Supported
  | .nil, _, _ => by simp
  | @DerivesComponents.cons fields text _ _ _ _ htext _ htype hrest, hhere, hinner => by
    have hfits := (hhere fields text (by simp) htext).of_isInfix (Text.trim_isInfix text)
    have hfirst := Derives.supported htype ⟨hfits, hinner fields (by simp)⟩
    have hothers := DerivesComponents.supported hrest
      (fun fields text hmem => hhere fields text (by simp [hmem]))
      (fun fields hmem => hinner fields (by simp [hmem]))
    intro part hmem
    rcases List.mem_cons.mp hmem with rfl | hmem
    · exact hfirst
    · exact hothers part hmem
termination_by structural h => h

end

end AbiType

end AbiBindings
