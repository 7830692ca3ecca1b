import AbiBindings.AbiType.Parser
import AbiBindings.Proofs.Text.Decimal
import AbiBindings.Proofs.Text.Run

/-!
The grammar of type texts, said as derivations and without a word about reading: which texts spell
which types, given the components that come with the text. A type is a base followed by suffixes,
and a base is a word with an optional width, a list of types in parentheses, or the word `tuple`
where components are at hand.

A text need not be trimmed to be read, so derivations are about trimmed texts; the type of a
component is trimmed on its own.
-/

namespace AbiBindings.AbiType

structure Numeral (digits : Text) (n : Nat) : Prop where
  ne_nil : digits ≠ []
  isDigit : ∀ c ∈ digits, c.isDigit = true
  noLeadingZero : digits.head? = some (CodePoint.ofChar '0') → digits.length = 1
  value : Text.decimalValue digits = n

inductive WidthText : Text → Option Nat → Prop
  | absent : WidthText [] none
  | given {digits : Text} {n : Nat} : Numeral digits n → WidthText digits (some n)

def IsIntegerWidth (bits : Nat) : Prop := bits % 8 = 0 ∧ 8 ≤ bits ∧ bits ≤ 256

inductive Named : (word : Text) → (width : Option Nat) → Elementary → Prop
  | uint {width : Option Nat} : IsIntegerWidth (width.getD 256) →
      Named "uint" width (.uint (some (width.getD 256 : Nat)))
  | int {width : Option Nat} : IsIntegerWidth (width.getD 256) →
      Named "int" width (.int (some (width.getD 256 : Nat)))
  | fixedBytes {size : Nat} : 1 ≤ size → size ≤ 32 → Named "bytes" (some size) (.fixedBytes size)
  | bytes : Named "bytes" none .bytes
  | byte : Named "byte" none (.fixedBytes 1)
  | address : Named "address" none (.address (some 160))
  | bool : Named "bool" none (.bool none)
  | string : Named "string" none .string

/-- The suffixes that make one type out of another, the innermost first. -/
inductive Suffixed : AbiType → Text → AbiType → Prop
  | done {type : AbiType} : Suffixed type [] type
  | anyLength {item type : AbiType} {w : Text} :
      Suffixed (array none item) w type → Suffixed item ("[]" ++ w) type
  | ofLength {item type : AbiType} {digits w : Text} {n : Nat} : Numeral digits n → 0 < n →
      Suffixed (array (some n) item) w type → Suffixed item ("[" ++ digits ++ "]" ++ w) type

inductive ComponentName : Option Json → Text → Prop
  | absent : ComponentName none []
  | unset {value : Json} : value.isSet = false → ComponentName (some value) []
  | text {name : Text} : ComponentName (some (.str name)) name

def componentsOf (fields : List (Text × Json)) : Json :=
  (Json.lookup fields "components").getD .null

mutual

/-- The texts that spell a type when `components` comes with them. -/
inductive Derives : (components : Json) → Text → AbiType → Prop
  | suffixed {components : Json} {b s : Text} {base type : AbiType} :
      DerivesBase components b base → Suffixed base s type → Derives components (b ++ s) type

/-- The texts that spell a type without suffixes. Types in parentheses have no components at
hand. -/
inductive DerivesBase : (components : Json) → Text → AbiType → Prop
  | named {components : Json} {word digits : Text} {width : Option Nat} {kind : Elementary} :
      Named word width kind → WidthText digits width →
        DerivesBase components (word ++ digits) (elementary kind)
  | emptyList {components : Json} : DerivesBase components "()" (unnamedTuple [])
  | list {components : Json} {w : Text} {types : List AbiType} :
      DerivesList w types → DerivesBase components ("(" ++ w ++ ")") (unnamedTuple types)
  | tuple {items : List Json} {parts : List (Text × AbiType)} :
      DerivesComponents items parts → DerivesBase (.arr items) "tuple" (tuple parts)

inductive DerivesList : Text → List AbiType → Prop
  | one {w : Text} {type : AbiType} : Derives .null w type → DerivesList w [type]
  | more {w v : Text} {type : AbiType} {types : List AbiType} :
      Derives .null w type → DerivesList v types → DerivesList (w ++ "," ++ v) (type :: types)

/-- The lists of objects that spell components: each with a type text, which derives with the
components of its own, and a name. -/
inductive DerivesComponents : List Json → List (Text × AbiType) → Prop
  | nil : DerivesComponents [] []
  | cons {fields : List (Text × Json)} {text name : Text} {type : AbiType} {rest : List Json}
      {parts : List (Text × AbiType)} :
      Json.lookup fields "type" = some (.str text) →
      ComponentName (Json.lookup fields "name") name →
      Derives (componentsOf fields) (Text.trim text) type →
      DerivesComponents rest parts → DerivesComponents (.obj fields :: rest) ((name, type) :: parts)

end

/-- No run of digits in the text is longer than numbers can be. -/
def DigitRunsFit (t : Text) : Prop :=
  ∀ run, run <:+: t → (∀ c ∈ run, c.isDigit = true) → run.length ≤ Json.digitLimit

inductive IsComponentText (text : Text) : Json → Prop
  | here {items : List Json} {fields : List (Text × Json)} : .obj fields ∈ items →
      Json.lookup fields "type" = some (.str text) → IsComponentText text (.arr items)
  | inner {items : List Json} {fields : List (Text × Json)} : .obj fields ∈ items →
      IsComponentText text (componentsOf fields) → IsComponentText text (.arr items)

/-- No run of digits in the text or in the type of a component is longer than numbers can be. -/
def NumbersFit (text : Text) (components : Json) : Prop :=
  DigitRunsFit text ∧ ∀ part, IsComponentText part components → DigitRunsFit part

theorem DigitRunsFit.of_isInfix {s t : Text} (ht : DigitRunsFit t) (h : s <:+: t) :
    DigitRunsFit s :=
  fun run hrun hdigits => ht run (hrun.trans h) hdigits

/-- A text that is short as a whole has short runs. -/
theorem digitRunsFit_of_length_le {t : Text} (h : t.length ≤ Json.digitLimit) : DigitRunsFit t :=
  fun _ hrun _ => Nat.le_trans hrun.length_le h

/-- A number has one spelling: its decimal digits. -/
theorem numeral_iff {digits : Text} {n : Nat} : Numeral digits n ↔ digits = Text.ofNat n := by
  constructor
  · intro h
    rw [← h.value, Text.ofNat_decimalValue h.ne_nil h.isDigit h.noLeadingZero]
  · rintro rfl
    refine ⟨Text.ofNat_ne_nil n, fun c => Text.isDigit_of_mem_ofNat, ?_, Text.decimalValue_ofNat n⟩
    intro hhead
    rcases Nat.eq_zero_or_pos n with rfl | hn
    · rfl
    · exact absurd hhead (Text.head?_ofNat_ne_zero hn)

/-- The words that name types are words of small letters, and none of them is `tuple`. -/
theorem Named.isLower {word : Text} {width : Option Nat} {kind : Elementary}
    (h : Named word width kind) : word ≠ [] ∧ ∀ c ∈ word, c.isLower = true := by
  cases h <;> decide

theorem Named.ne_tuple {word : Text} {width : Option Nat} {kind : Elementary}
    (h : Named word width kind) : word ≠ "tuple" := by
  cases h <;> decide

theorem WidthText.isDigit {digits : Text} {width : Option Nat} (h : WidthText digits width) :
    ∀ c ∈ digits, c.isDigit = true := by
  cases h with
  | absent => simp
  | given hn => exact hn.isDigit

theorem WidthText.unique {digits : Text} {width width' : Option Nat} (h : WidthText digits width)
    (h' : WidthText digits width') : width = width' := by
  cases h with
  | absent =>
    cases h' with
    | absent => rfl
    | given hn => exact absurd rfl hn.ne_nil
  | given hn =>
    cases h' with
    | absent => exact absurd rfl hn.ne_nil
    | given hn' => rw [← hn.value, ← hn'.value]

/-- Suffixes after suffixes. -/
theorem Suffixed.trans {s t u : AbiType} {v w : Text} (h : Suffixed s v t)
    (h' : Suffixed t w u) : Suffixed s (v ++ w) u := by
  induction h with
  | done => exact h'
  | anyLength _ ih =>
    rw [List.append_assoc]
    exact .anyLength (ih h')
  | ofLength hn hpos _ ih =>
    rw [List.append_assoc]
    exact .ofLength hn hpos (ih h')

end AbiBindings.AbiType
