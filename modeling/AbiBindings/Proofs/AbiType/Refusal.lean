import AbiBindings.Proofs.AbiType.Acceptance

/-!
Why a type text is refused. Reading a type ends with a type or with one of two kinds of faults: the
type is not supported, or a number in the text itself or in the type of a component is too long.
If the components that come with the text are well shaped, all reasons why it is not supported lie
in the spelling of texts, and none in the shape of the components.
-/

namespace AbiBindings

open Outcome

/-- The reason lies in how a text is spelled, and not in the shape of the values around it. -/
def TypeFault.IsSpelling : TypeFault → Prop
  | .notText | .componentsNotList | .componentShape | .componentName | .notAType => False
  | _ => True

namespace AbiType

structure HasLongRun (t : Text) (digits : Nat) : Prop where
  long : Json.digitLimit < digits
  run : ∃ run, run <:+: t ∧ (∀ c ∈ run, c.isDigit = true) ∧ run.length = digits

theorem HasLongRun.of_isInfix {s t : Text} {digits : Nat} (h : HasLongRun s digits)
    (hst : s <:+: t) : HasLongRun t digits := by
  obtain ⟨run, hrun, hdigits, hlength⟩ := h.run
  exact ⟨h.long, run, hrun.trans hst, hdigits, hlength⟩

theorem HasLongRun.not_digitRunsFit {t : Text} {digits : Nat} (h : HasLongRun t digits) :
    ¬ DigitRunsFit t := by
  intro hfit
  obtain ⟨run, hrun, hdigits, hlength⟩ := h.run
  have hle := hfit run hrun hdigits
  have hlong := h.long
  omega

def ScanFault.LiesIn (t : Text) : ScanFault → Prop
  | unsupported reason => reason.IsSpelling
  | integerTooLong digits => HasLongRun t digits

theorem ScanFault.LiesIn.of_isSuffix {s t : Text} {fault : ScanFault} (h : fault.LiesIn s)
    (hst : s <:+ t) : fault.LiesIn t := by
  cases fault with
  | unsupported reason => exact h
  | integerTooLong digits => exact HasLongRun.of_isInfix h hst.isInfix

section

variable {α β : Type} {rest : α → Text} {rest' : β → Text}

def Scans (rest : α → Text) (t : Text) : Except ScanFault α → Prop
  | .ok a => rest a <:+ t
  | .error fault => fault.LiesIn t

theorem Scans.of_isSuffix {s t : Text} {x : Except ScanFault α} (h : Scans rest s x)
    (hst : s <:+ t) : Scans rest t x := by
  cases x with
  | ok a => exact List.IsSuffix.trans h hst
  | error fault => exact ScanFault.LiesIn.of_isSuffix h hst

/-- A scan that goes on where another one stopped. -/
theorem Scans.bind {t : Text} {x : Except ScanFault α} {f : α → Except ScanFault β}
    (h : Scans rest t x) (hf : ∀ a, x = .ok a → Scans rest' (rest a) (f a)) :
    Scans rest' t (x >>= f) := by
  cases x with
  | ok a => exact (hf a rfl).of_isSuffix h
  | error fault => exact h

end

theorem scans_expect (wanted : CodePoint) (t : Text) : Scans id t (expect wanted t) := by
  cases t with
  | nil => trivial
  | cons c rest =>
    rw [expect]
    split
    · exact List.suffix_cons c rest
    · trivial

theorem scans_readNumber (number : TypeNumber) (t : Text) :
    Scans Prod.snd t (readNumber number t) := by
  rw [readNumber]
  split
  · exact List.suffix_refl t
  split
  · trivial
  split
  · next hlong =>
    exact ⟨hlong, _, (List.takeWhile_prefix _).isInfix, fun c => Text.of_mem_takeWhile, rfl⟩
  · exact List.dropWhile_suffix _

theorem scans_readSuffixes (count : Nat) (type : AbiType) (t : Text) :
    Scans Prod.snd t (readSuffixes count type t) := by
  induction count generalizing type t with
  | zero => exact List.suffix_refl t
  | succ count ih =>
    cases t with
    | nil => exact List.suffix_refl []
    | cons c rest =>
      rw [readSuffixes]
      split
      · refine Scans.of_isSuffix (s := rest) ?_ (List.suffix_cons c rest)
        refine (scans_readNumber .arrayLength rest).bind fun number _ => ?_
        obtain ⟨length, afterLength⟩ := number
        refine (scans_expect ']' afterLength).bind fun left _ => ?_
        cases length with
        | none => exact ih _ left
        | some n =>
          cases n with
          | zero => trivial
          | succ n => exact ih _ left
      · exact List.suffix_refl _

theorem isSpelling_of_ofName {word : Text} {width : Option Nat} {reason : TypeFault}
    (h : ofName word width = .error reason) : reason.IsSpelling := by
  simp only [ofName] at h
  cases width with
  | none => grind [TypeFault.IsSpelling]
  | some size => grind [TypeFault.IsSpelling]

theorem isSpelling_of_refusedName? {word : Text} {reason : TypeFault}
    (h : refusedName? word = some reason) : reason.IsSpelling := by
  grind [refusedName?, TypeFault.IsSpelling]

theorem scans_readName (t : Text) : Scans Prod.snd t (readName t) := by
  rw [readName]
  split
  · trivial
  · split
    · next reason hrefused => exact isSpelling_of_refusedName? hrefused
    · refine Scans.of_isSuffix (s := t.dropWhile CodePoint.isLower) ?_ (List.dropWhile_suffix _)
      refine (scans_readNumber .width _).bind fun number _ => ?_
      obtain ⟨width, left⟩ := number
      dsimp only
      split
      · exact List.suffix_refl left
      · next reason hname => exact isSpelling_of_ofName hname

section

variable {readItem : Text → Except ScanFault (AbiType × Text)}
variable (hitem : ∀ t, Scans Prod.snd t (readItem t))
include hitem

theorem scans_readSeparated (count : Nat) (t : Text) :
    Scans Prod.snd t (readSeparated readItem count t) := by
  induction count generalizing t with
  | zero =>
    refine (hitem t).bind fun read _ => ?_
    exact List.suffix_refl read.2
  | succ count ih =>
    refine (hitem t).bind fun read _ => ?_
    obtain ⟨type, left⟩ := read
    cases left with
    | nil => exact List.suffix_refl []
    | cons c rest =>
      dsimp only
      split
      · refine Scans.of_isSuffix (s := rest) ?_ (List.suffix_cons c rest)
        refine (ih rest).bind fun others _ => ?_
        exact List.suffix_refl others.2
      · exact List.suffix_refl _

theorem scans_readBase (t : Text) : Scans Prod.snd t (readBase readItem t) := by
  cases t with
  | nil => exact scans_readName []
  | cons c rest =>
    rw [readBase]
    split
    · exact scans_readName _
    refine Scans.of_isSuffix (s := rest) ?_ (List.suffix_cons c rest)
    split
    · exact List.drop_suffix 1 rest
    · refine (scans_readSeparated hitem rest.length rest).bind fun list _ => ?_
      refine (scans_expect ')' list.2).bind fun left _ => ?_
      exact List.suffix_refl left

end

theorem scans_readInner (depth : Nat) (t : Text) : Scans Prod.snd t (readInner depth t) := by
  induction depth generalizing t with
  | zero => trivial
  | succ depth ih =>
    rw [readInner]
    refine (scans_readBase ih t).bind fun read _ => ?_
    obtain ⟨base, left⟩ := read
    cases base with
    | given type => exact scans_readSuffixes left.length type left
    | components => trivial

/-- Why a trimmed text at a place is refused: for its spelling, for a number in it, or for what
`tuple` stands for there. -/
inductive RefusesText (text : Text) (path : Option Text) (parts : Except Fault AbiType) :
    Fault → Prop
  | spelling {reason : TypeFault} : reason.IsSpelling →
      RefusesText text path parts (.unsupportedType text path reason)
  | number {digits : Nat} : HasLongRun text digits →
      RefusesText text path parts (.integerTooLong digits)
  | parts {fault : Fault} : parts = .error fault → RefusesText text path parts fault

section

variable {text : Text} {path : Option Text} {parts : Except Fault AbiType}

theorem ScanFault.LiesIn.refuses {fault : ScanFault} (h : fault.LiesIn text) :
    RefusesText text path parts (fault.toFault text path) := by
  cases fault with
  | unsupported reason => exact .spelling h
  | integerTooLong digits => exact .number h

theorem refuses_readSuffixes {start : AbiType} {after : Text} (hafter : after <:+ text)
    {fault : Fault}
    (h : ((readSuffixes after.length start after).mapError (·.toFault text path) >>= fun p =>
      match p.2 with
      | [] => pure p.1
      | c :: _ => .error (.unsupportedType text path
          (.unexpected c (text.length - p.2.length)))) = .error fault) :
    RefusesText text path parts fault := by
  rcases bind_eq_error.mp h with h | ⟨⟨type, left⟩, -, h⟩
  · obtain ⟨scanned, hread, rfl⟩ := mapError_eq_error.mp h
    have hsuffixes := scans_readSuffixes after.length start after
    rw [hread] at hsuffixes
    exact (hsuffixes.of_isSuffix hafter).refuses
  · cases left with
    | nil => cases h
    | cons c rest =>
      obtain rfl := Except.error.inj h
      exact .spelling trivial

theorem refuses_ofText {fault : Fault} (h : ofText text path parts = .error fault) :
    RefusesText text path parts fault := by
  have hbase := scans_readBase (scans_readInner text.length) text
  rw [ofText] at h
  rcases bind_eq_error.mp h with h | ⟨⟨base, after⟩, hread, h⟩
  · obtain ⟨scanned, hread, rfl⟩ := mapError_eq_error.mp h
    rw [hread] at hbase
    exact hbase.refuses
  rw [mapError_eq_ok.mp hread] at hbase
  cases base with
  | given start => exact refuses_readSuffixes hbase h
  | components =>
    rcases bind_eq_error.mp h with h | ⟨start, -, h⟩
    · exact .parts h
    · exact refuses_readSuffixes hbase h

end

/-- A list of components as it should be: objects, each with a text for its type, with a text for
its name if it has one, and with components that are well shaped in turn; or no components. -/
inductive WellShaped : Json → Prop
  | absent : WellShaped .null
  | list {items : List Json} :
      (∀ item ∈ items, ∃ fields text, item = .obj fields ∧
        Json.lookup fields "type" = some (.str text)) →
      (∀ fields value, .obj fields ∈ items → Json.lookup fields "name" = some value →
        ∃ name, value = .str name) →
      (∀ fields, .obj fields ∈ items → WellShaped (componentsOf fields)) → WellShaped (.arr items)

theorem WellShaped.tail {item : Json} {rest : List Json} (h : WellShaped (.arr (item :: rest))) :
    WellShaped (.arr rest) := by
  cases h with
  | list htype hname hcomponents =>
    exact .list (fun other hmem => htype other (List.mem_cons_of_mem item hmem))
      (fun fields value hmem => hname fields value (List.mem_cons_of_mem item hmem))
      (fun fields hmem => hcomponents fields (List.mem_cons_of_mem item hmem))

/-- Why components are refused: something in them is not supported, which is for the spelling of a
type if they are well shaped, or a number in the type of one of them is too long. -/
inductive RefusesComponents (components : Json) : Fault → Prop
  | unsupported {type : Text} {path : Option Text} {reason : TypeFault} :
      (WellShaped components → reason.IsSpelling) →
      RefusesComponents components (.unsupportedType type path reason)
  | number {part : Text} {digits : Nat} : IsComponentText part components →
      HasLongRun part digits → RefusesComponents components (.integerTooLong digits)

theorem RefusesComponents.tail {item : Json} {rest : List Json} {fault : Fault}
    (h : RefusesComponents (.arr rest) fault) : RefusesComponents (.arr (item :: rest)) fault := by
  cases h with
  | unsupported hreason => exact .unsupported fun hshaped => hreason hshaped.tail
  | number hpart hrun =>
    refine .number ?_ hrun
    cases hpart with
    | here hmem htext => exact .here (List.mem_cons_of_mem item hmem) htext
    | inner hmem hpart => exact .inner (List.mem_cons_of_mem item hmem) hpart

/-- What is wrong with the components of a component is wrong with the list it stands in. -/
theorem RefusesComponents.inner {items : List Json} {fields : List (Text × Json)} {fault : Fault}
    (h : RefusesComponents (componentsOf fields) fault) (hmem : .obj fields ∈ items) :
    RefusesComponents (.arr items) fault := by
  cases h with
  | unsupported hreason =>
    refine .unsupported fun hshaped => hreason ?_
    cases hshaped with
    | list _ _ hcomponents => exact hcomponents fields hmem
  | number hpart hrun => exact .number (.inner hmem hpart) hrun

theorem componentName_eq_none {fields : List (Text × Json)} (h : componentName fields = none) :
    ∃ value, Json.lookup fields "name" = some value ∧ ¬ ∃ name, value = .str name := by
  rw [componentName] at h
  split at h
  · cases h
  · cases h
  · next value hnotText hname =>
    refine ⟨value, hname, ?_⟩
    rintro ⟨name, rfl⟩
    exact hnotText name rfl

mutual

theorem refuses_ofComponents {text : Text} {path : Option Text} {fault : Fault} :
    ∀ components : Json, ofComponents text path components = .error fault →
      RefusesComponents components fault
  | .null, h => by
    rw [ofComponents] at h
    obtain rfl := Except.error.inj h
    exact .unsupported fun _ => trivial
  | .arr items, h => by
    rw [ofComponents] at h
    rcases bind_eq_error.mp h with hitems | ⟨parts, -, hdone⟩
    · exact refuses_ofItems items hitems
    · cases hdone
  | .bool _, h | .int _, h | .float _, h | .str _, h | .obj _, h => by
    obtain rfl := Except.error.inj h
    exact .unsupported fun hshaped => by cases hshaped

theorem refuses_ofItems {text : Text} {path : Option Text} {index : Nat} {fault : Fault} :
    ∀ items : List Json, ofItems text path index items = .error fault →
      RefusesComponents (.arr items) fault
  | [], h => by cases h
  | item :: rest, h => by
    rw [ofItems] at h
    rcases bind_eq_error.mp h with hitem | ⟨part, -, h⟩
    · exact refuses_ofItem item hitem rest
    · rcases bind_eq_error.mp h with hrest | ⟨others, -, hdone⟩
      · exact (refuses_ofItems rest hrest).tail
      · cases hdone

theorem refuses_ofItem {text : Text} {path : Option Text} {index : Nat} {fault : Fault} :
    ∀ item : Json, ofItem text path index item = .error fault →
      ∀ rest, RefusesComponents (.arr (item :: rest)) fault
  | .obj fields, h, rest => by
    have hmem : Json.obj fields ∈ Json.obj fields :: rest := List.mem_cons_self
    rw [ofItem] at h
    split at h
    · next typeText htext =>
      split at h
      · next hname =>
        obtain rfl := Except.error.inj h
        obtain ⟨value, hvalue, hnotText⟩ := componentName_eq_none hname
        refine .unsupported fun hshaped => ?_
        cases hshaped with
        | list _ hnames _ => exact absurd (hnames fields value hmem hvalue) hnotText
      · rcases bind_eq_error.mp h with h | ⟨type, -, hdone⟩
        · cases refuses_ofText h with
          | spelling hreason => exact .unsupported fun _ => hreason
          | number hrun =>
            exact .number (.here hmem htext) (hrun.of_isInfix (Text.trim_isInfix typeText))
          | parts hparts => exact (refuses_ofComponentsField fields hparts).inner hmem
        · cases hdone
    · next hnotText =>
      obtain rfl := Except.error.inj h
      refine .unsupported fun hshaped => ?_
      cases hshaped with
      | list htypes _ _ =>
        obtain ⟨fields', typeText, heq, htext⟩ := htypes _ hmem
        obtain rfl := Json.obj.inj heq
        exact absurd htext (hnotText typeText)
  | .null, h, rest | .bool _, h, rest | .int _, h, rest | .float _, h, rest | .str _, h, rest |
    .arr _, h, rest => by
    obtain rfl := Except.error.inj h
    refine .unsupported fun hshaped => ?_
    cases hshaped with
    | list htypes _ _ =>
      obtain ⟨fields, typeText, heq, -⟩ := htypes _ List.mem_cons_self
      cases heq

theorem refuses_ofComponentsField {text : Text} {path : Option Text} {fault : Fault} :
    ∀ fields : List (Text × Json), ofComponentsField text path fields = .error fault →
      RefusesComponents (componentsOf fields) fault
  | [], h => by
    obtain rfl := Except.error.inj h
    exact .unsupported fun _ => trivial
  | (key, value) :: rest, h => by
    rw [ofComponentsField] at h
    rw [componentsOf, Json.lookup]
    split at h
    · next hkey =>
      rw [if_pos hkey]
      exact refuses_ofComponents value h
    · next hkey =>
      rw [if_neg hkey]
      exact refuses_ofComponentsField rest h

end

/-- A type text that is refused is not supported, or a number in it or in the type of a component
is too long. -/
theorem parse_eq_error {text : Text} {components : Json} {path : Option Text} {fault : Fault}
    (h : parse (.str text) components path = .error fault) :
    (∃ type place reason, fault = .unsupportedType type place reason ∧
        (WellShaped components → reason.IsSpelling)) ∨
      ∃ part digits, fault = .integerTooLong digits ∧
        (part = text ∨ IsComponentText part components) ∧ HasLongRun part digits := by
  cases refuses_ofText h with
  | spelling hreason => exact .inl ⟨_, _, _, rfl, fun _ => hreason⟩
  | number hrun => exact .inr ⟨text, _, rfl, .inl rfl, hrun.of_isInfix (Text.trim_isInfix text)⟩
  | parts hparts =>
    cases refuses_ofComponents components hparts with
    | unsupported hreason => exact .inl ⟨_, _, _, rfl, hreason⟩
    | number hpart hrun => exact .inr ⟨_, _, rfl, .inr hpart, hrun⟩

/-- If all numbers fit and the components are well shaped, a type text is refused for its spelling
or that of a component. -/
theorem isSpelling_of_parse {text : Text} {components : Json} {path : Option Text} {fault : Fault}
    (hfit : NumbersFit text components) (hshaped : WellShaped components)
    (h : parse (.str text) components path = .error fault) :
    ∃ type place reason, fault = .unsupportedType type place reason ∧ reason.IsSpelling := by
  rcases parse_eq_error h with
    ⟨type, place, reason, rfl, hreason⟩ | ⟨part, digits, rfl, hpart, hrun⟩
  · exact ⟨type, place, reason, rfl, hreason hshaped⟩
  · rcases hpart with rfl | hpart
    · exact absurd hfit.1 hrun.not_digitRunsFit
    · exact absurd (hfit.2 part hpart) hrun.not_digitRunsFit

end AbiType

end AbiBindings
