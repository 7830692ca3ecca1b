import AbiBindings.Proofs.Text.Encodable
import AbiBindings.Proofs.Text.Order

/-!
JSON values whose written text has a UTF-8 form: those with no surrogate in any text or key, at
any depth. Nothing that is written around texts and keys matters, so the style does not either.
-/

namespace AbiBindings

open Text (Encodable)

namespace Binary64

theorem encodable_zeros (count : Nat) : Encodable (Layout.zeros count) :=
  Text.encodable_replicate (CodePoint.isSurrogate_ofChar '0') count

theorem encodable_layout {layout : Layout} {digits : Text} (hdigits : Encodable digits)
    (power : Int) : Encodable (layout.write digits power) := by
  have htake (count : Nat) : Encodable (digits.take count) :=
    hdigits.of_subset (List.take_subset count digits)
  have hdrop (count : Nat) : Encodable (digits.drop count) :=
    hdigits.of_subset (List.drop_subset count digits)
  have htail : Encodable digits.tail := hdigits.of_subset (List.tail_sublist digits).subset
  rw [Layout.write]
  split
  · split
    · simp [encodable_zeros, hdigits]
    split
    · simp [encodable_zeros, hdigits]
    · simp [htake, hdrop]
  · have hsign : Encodable (if power < 0 then "-" else "+" : Text) := by split <;> simp
    have hfraction : Encodable (if digits.length = 1 then [] else "." ++ digits.tail : Text) := by
      split <;> simp [htail]
    simp [htake, hsign, hfraction, Layout.padZeros, encodable_zeros]

@[simp] theorem encodable_toText (value : Binary64) : Encodable value.toText := by
  cases value with
  | nan => simp [toText]
  | infinite negative => cases negative <;> simp [toText]
  | finite negative significand exponent =>
    have hsign : Encodable (if negative then "-" else [] : Text) := by cases negative <;> simp
    simp only [toText]
    split
    · simp [hsign]
    · apply Text.encodable_append.mpr
      refine ⟨hsign, encodable_layout ?_ _⟩
      apply (Text.encodable_ofNat _).of_subset
      intro c hc
      exact List.mem_reverse.mp (List.dropWhile_sublist _ |>.subset (List.mem_reverse.mp hc))

end Binary64

namespace Json

mutual

/-- No text and no key, at any depth, holds a surrogate. -/
def AllEncodable : Json → Prop
  | str text => Encodable text
  | arr items => ItemsEncodable items
  | obj fields => FieldsEncodable fields
  | _ => True

def ItemsEncodable : List Json → Prop
  | [] => True
  | item :: rest => item.AllEncodable ∧ ItemsEncodable rest

def FieldsEncodable : List (Text × Json) → Prop
  | [] => True
  | (key, value) :: rest => Encodable key ∧ value.AllEncodable ∧ FieldsEncodable rest

end

@[simp] theorem allEncodable_null : null.AllEncodable := trivial

@[simp] theorem allEncodable_bool (b : Bool) : (bool b).AllEncodable := trivial

@[simp] theorem allEncodable_int (i : Int) : (int i).AllEncodable := trivial

@[simp] theorem allEncodable_str {text : Text} : (str text).AllEncodable ↔ Encodable text :=
  Iff.rfl

@[simp] theorem allEncodable_arr {items : List Json} :
    (arr items).AllEncodable ↔ ∀ item ∈ items, item.AllEncodable := by
  rw [AllEncodable]
  induction items with
  | nil => simp [ItemsEncodable]
  | cons item rest ih => rw [ItemsEncodable, ih, List.forall_mem_cons]

@[simp] theorem allEncodable_obj {fields : List (Text × Json)} :
    (obj fields).AllEncodable ↔
      ∀ field ∈ fields, Encodable field.1 ∧ field.2.AllEncodable := by
  rw [AllEncodable]
  induction fields with
  | nil => simp [FieldsEncodable]
  | cons field rest ih =>
    obtain ⟨key, value⟩ := field
    rw [FieldsEncodable, ih, List.forall_mem_cons, and_assoc]

theorem encodable_writeText {t : Text} : Encodable (writeText t) ↔ Encodable t := by
  have hescape (c : CodePoint) : Encodable (escapeOne c) ↔ c.isSurrogate = false := by
    rw [escapeOne]
    by_cases hascii : c.val < 128
    · -- whatever is written for ASCII is ASCII, too
      have hsurrogate := CodePoint.isSurrogate_of_lt (Nat.lt_trans hascii (by decide))
      simp [apply_ite Text.Encodable, hsurrogate]
    · have hne (d : CodePoint) (hd : d.val < 128) : c ≠ d := by
        rintro rfl
        exact hascii hd
      rw [if_neg (hne _ (by decide)), if_neg (hne _ (by decide)), if_neg (hne _ (by decide)),
        if_neg (hne _ (by decide)), if_neg (hne _ (by decide)), if_neg (by omega),
        if_neg (by omega), if_neg (by omega)]
      simp
  have hbody : Encodable (t.flatMap escapeOne) ↔ Encodable t := by
    simp only [Text.encodable_flatMap, hescape]
    rfl
  simp [writeText, hbody]

theorem encodable_lineBreak (style : Style) (level : Nat) : Encodable (style.lineBreak level) := by
  cases style with
  | compact => exact Text.encodable_nil
  | indented width =>
    have hspaces (count : Nat) : Encodable (Text.spaces count) :=
      Text.encodable_replicate (CodePoint.isSurrogate_ofChar ' ') count
    simp [Style.lineBreak, hspaces]

theorem encodable_enclose {style : Style} {level : Nat} {opening closing : Text}
    (hopening : Encodable opening) (hclosing : Encodable closing) {parts : List Text} :
    Encodable (enclose style level opening closing parts) ↔ ∀ part ∈ parts, Encodable part := by
  have hbreak := encodable_lineBreak style
  have hcomma : Encodable ("," ++ style.lineBreak (level + 1)) := by simp [hbreak]
  rw [enclose]
  split
  · next hempty =>
    rw [List.isEmpty_iff] at hempty
    simp [hempty, hopening, hclosing]
  · simp [hopening, hclosing, hbreak, Text.encodable_join hcomma]

mutual

theorem encodable_writeAt (style : Style) (level : Nat) :
    (json : Json) → (Encodable (writeAt style level json) ↔ json.AllEncodable)
  | null => by simp [writeAt]
  | bool b => by cases b <;> simp [writeAt]
  | int i => by simp [writeAt]
  | float .nan => by simp [writeAt, AllEncodable]
  | float (.infinite negative) => by cases negative <;> simp [writeAt, AllEncodable]
  | float (.finite negative significand exponent) => by simp [writeAt, AllEncodable]
  | str text => by
    rw [writeAt, encodable_writeText, allEncodable_str]
  | arr items => by
    rw [writeAt, encodable_enclose (Text.encodable_ofString _) (Text.encodable_ofString _),
      allEncodable_arr]
    exact encodable_writeItems style (level + 1) items
  | obj fields => by
    have hcolon : Encodable style.colon := by cases style <;> simp [Style.colon]
    rw [writeAt, encodable_enclose (Text.encodable_ofString _) (Text.encodable_ofString _),
      allEncodable_obj, ← encodable_writeFields style (level + 1) fields]
    simp only [List.forall_mem_map, Text.mem_sortByKey, Text.encodable_append, encodable_writeText,
      hcolon, and_true]

theorem encodable_writeItems (style : Style) (level : Nat) :
    (items : List Json) → ((∀ part ∈ writeItems style level items, Encodable part) ↔
      ∀ item ∈ items, item.AllEncodable)
  | [] => by simp [writeItems]
  | item :: rest => by
    rw [writeItems, List.forall_mem_cons, List.forall_mem_cons, encodable_writeAt style level item,
      encodable_writeItems style level rest]

theorem encodable_writeFields (style : Style) (level : Nat) :
    (fields : List (Text × Json)) →
      ((∀ part ∈ writeFields style level fields, Encodable part.1 ∧ Encodable part.2) ↔
        ∀ field ∈ fields, Encodable field.1 ∧ field.2.AllEncodable)
  | [] => by simp [writeFields]
  | (key, value) :: rest => by
    rw [writeFields, List.forall_mem_cons, List.forall_mem_cons,
      encodable_writeAt style level value, encodable_writeFields style level rest]

end

/-- In every style, the text of a value has a UTF-8 form exactly if no text or key in the value
holds a surrogate. -/
theorem encodable_write {style : Style} {json : Json} :
    Encodable (json.write style) ↔ json.AllEncodable :=
  encodable_writeAt style 0 json

end Json

end AbiBindings
