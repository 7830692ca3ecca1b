import AbiBindings.Proofs.AbiType.Canonical
import AbiBindings.Proofs.Client.Lossless

/-!
Bindings tell wire formats apart. Many types share a host type, so what tells them apart is the
codecs: from the codecs of a binding and of its parts the canonical spelling of the type can be
put together again, and the JSON of a binding has them all. The parts of a binding stand as the
parts of the type do, and no integer has a host type that is too narrow for it, or wider than it
has to be.
-/

namespace AbiBindings

open Outcome

namespace Binding

/-- The spelling that a codec gives to a value with the given spellings of its parts. -/
def wireOf (codec : Text) (parts : List Text) : Text :=
  if codec = "tuple" then "(" ++ Text.join "," parts ++ ")"
  else parts.headD [] ++ (if parts.isEmpty then codec else codec.drop ("array" : Text).length)

mutual

/-- What the codecs of a binding and of its parts say about the values on the wire. -/
def wire : Binding → Text
  | ⟨_, codec, elements⟩ => wireOf codec (wires elements)

def wires : List Binding → List Text
  | [] => []
  | element :: rest => element.wire :: wires rest

end

theorem wires_eq_map (elements : List Binding) : wires elements = elements.map wire := by
  induction elements with
  | nil => rfl
  | cons element rest ih => rw [wires, ih, List.map_cons]

theorem wire_eq (binding : Binding) :
    binding.wire = wireOf binding.codec (binding.elements.map wire) := by
  obtain ⟨host, codec, elements⟩ := binding
  rw [wire, wires_eq_map]

theorem wire_leaf {host : HostType} {codec : Text} (h : codec ≠ "tuple") :
    wire ⟨host, codec, []⟩ = codec := by
  rw [wire_eq, wireOf, if_neg h]
  rfl

theorem append_ne_of_head? {word text : Text} (h : word.head? ≠ text.head?) (hne : word ≠ [])
    (rest : Text) : word ++ rest ≠ text := by
  intro heq
  rw [← heq, List.head?_append_of_ne_nil _ hne] at h
  exact h rfl

theorem wire_ofElementary {kind : Elementary} {binding : Binding}
    (h : ofElementary kind = .ok binding) : binding.wire = kind.canonical := by
  cases kind with
  | uint bits | int bits | fixedBytes size =>
    cases h
    exact wire_leaf (append_ne_of_head? (by decide) (by decide) _)
  | foreign kind bits => cases h
  | absent => cases h
  | _ =>
    cases h
    exact wire_leaf (by decide)

theorem wireOf_array (item brackets : Text) :
    wireOf ("array" ++ brackets) [item] = item ++ brackets := by
  rw [wireOf, if_neg (append_ne_of_head? (by decide) (by decide) brackets)]
  rfl

theorem wire_ofArray {item : Binding} {type : AbiType} (h : item.wire = type.canonical)
    (length : Option Int) :
    (ofArray length item).wire = (AbiType.array length type).canonical := by
  rw [wire_eq]
  cases length with
  | none =>
    rw [AbiType.canonical, ← h]
    exact wireOf_array item.wire "[]"
  | some n =>
    rw [AbiType.canonical, ← h, List.append_assoc, List.append_assoc]
    exact wireOf_array item.wire ("[" ++ (Text.ofInt n ++ "]"))

/-- The codecs spell the type canonically. -/
theorem wire_ofType {type : AbiType} {binding : Binding} (h : ofType type = .ok binding) :
    binding.wire = type.canonical := by
  induction type using AbiType.induct generalizing binding with
  | elementary kind =>
    rw [ofType] at h
    exact wire_ofElementary h
  | array length item ih =>
    simp only [ofType, bind_eq_ok, pure_eq_ok, Except.ok.injEq] at h
    obtain ⟨inner, hinner, rfl⟩ := h
    exact wire_ofArray (ih hinner) length
  | tuple parts ih =>
    simp only [ofType, bind_eq_ok, pure_eq_ok, Except.ok.injEq] at h
    obtain ⟨bindings, hbindings, rfl⟩ := h
    have hwires : bindings.map wire = (AbiType.typesOf parts).map AbiType.canonical := by
      have hall := ofComponents_eq_ok.mp hbindings
      clear hbindings
      induction hall with
      | nil => rfl
      | cons hfirst _ ihrest =>
        rw [List.forall_mem_cons] at ih
        rw [List.map_cons, ih.1 hfirst, ihrest ih.2]
        rfl
    rw [wire_eq, ofTuple, hwires, AbiType.canonical_tuple, wireOf, if_pos rfl]
    rfl

theorem elements_of_toJson (binding : Binding) :
    (binding.toJson.field? "elements").getD (.arr []) = .arr (binding.elements.map toJson) := by
  obtain ⟨host, codec, elements⟩ := binding
  rw [toJson, toJsons_eq_map]
  cases elements with
  | nil => rfl
  | cons element rest => rfl

theorem codec_of_toJson (binding : Binding) :
    binding.toJson.field? "codec" = some (.str binding.codec) := by
  obtain ⟨host, codec, elements⟩ := binding
  rw [toJson]
  rfl

theorem matches_toJson {binding binding' : Binding}
    (h : binding.toJson.sorted = binding'.toJson.sorted) :
    binding.toJson.Matches binding'.toJson :=
  ⟨plain_toJson binding, plain_toJson binding', h⟩

mutual

/-- Bindings with the same JSON, but for the order of fields, have one wire format. -/
theorem wire_eq_of_sorted : (binding : Binding) → ∀ binding' : Binding,
    binding.toJson.sorted = binding'.toJson.sorted → binding.wire = binding'.wire
  | ⟨host, codec, elements⟩, binding', h => by
    have hmatch := matches_toJson h
    have hcodec : codec = binding'.codec :=
      hmatch.text "codec" (codec_of_toJson _) (codec_of_toJson _)
    have helements : (Json.arr (elements.map toJson)).sorted =
        (Json.arr (binding'.elements.map toJson)).sorted := by
      have hfield := congrArg (fun field => field.getD (Json.arr []).sorted)
        (hmatch.field? "elements")
      simp only [Option.getD_map, elements_of_toJson] at hfield
      exact hfield
    rw [wire_eq, wire_eq binding', ← hcodec,
      Json.map_eq_of_sorted_map (fun element hmem other _ =>
        wires_eq_of_sorted elements element hmem other) helements]

theorem wires_eq_of_sorted : (elements : List Binding) → ∀ element ∈ elements,
    ∀ other : Binding, element.toJson.sorted = other.toJson.sorted → element.wire = other.wire
  | [], _, hmem => absurd hmem List.not_mem_nil
  | first :: rest, element, hmem => by
    rcases List.mem_cons.mp hmem with heq | hrest
    · rw [heq]
      exact wire_eq_of_sorted first
    · exact wires_eq_of_sorted rest element hrest

end

/-- The native integer type of a sign with the smallest width that holds a number of bits, or the
integer type of that sign without a width where none does. -/
inductive HoldsBits (sign : Text) (bits : Int) : HostType → Prop
  | native {width : Nat} : width ∈ [8, 16, 32, 64, 128] → bits ≤ width →
      (∀ other ∈ [8, 16, 32, 64, 128], bits ≤ (other : Nat) → width ≤ other) →
      HoldsBits sign bits (.plain (sign ++ Text.ofNat width))
  | big : 128 < bits → HoldsBits sign bits (.plain ("Big" ++ sign))

/-- An integer of some number of bits has a host type of its sign that holds so many bits. -/
def HoldsKind : Elementary → HostType → Prop
  | .uint bits, host => ∃ n, bits = some n ∧ HoldsBits "UInt" n host
  | .int bits, host => ∃ n, bits = some n ∧ HoldsBits "Int" n host
  | _, _ => True

/-- The parts of a binding stand as the parts of a type do, at any depth, and the integers in it
have host types that hold them. -/
inductive Mirrors : AbiType → Binding → Prop
  | leaf {kind : Elementary} {host : HostType} {codec : Text} : HoldsKind kind host →
      Mirrors (.elementary kind) ⟨host, codec, []⟩
  | array {length : Option Int} {item : AbiType} {host : HostType} {codec : Text}
      {element : Binding} : Mirrors item element →
      Mirrors (.array length item) ⟨host, codec, [element]⟩
  | tuple {parts : List (Text × AbiType)} {host : HostType} {codec : Text}
      {elements : List Binding} :
      List.Forall₂ (fun part element => Mirrors part.2 element) parts elements →
      Mirrors (.tuple parts) ⟨host, codec, elements⟩

/-- What is found first in an increasing list is the least of what could be found. -/
theorem least_of_find? {widths : List Nat} (hsorted : widths.Pairwise (· ≤ ·)) {p : Nat → Bool}
    {width : Nat} (h : widths.find? p = some width) :
    ∀ other ∈ widths, p other = true → width ≤ other := by
  intro other hmem hother
  obtain ⟨-, before, after, rfl, hbefore⟩ := List.find?_eq_some_iff_append.mp h
  rw [List.pairwise_append] at hsorted
  rcases List.mem_append.mp hmem with hmem | hmem
  · have hnot := hbefore other hmem
    rw [hother] at hnot
    cases hnot
  · rcases List.mem_cons.mp hmem with rfl | hmem
    · exact Nat.le_refl other
    · exact (List.pairwise_cons.mp hsorted.2.1).1 other hmem

theorem holdsBits_integerHost (sign : Text) {bits : Int} (h : 0 < bits) :
    HoldsBits sign bits (integerHost sign (some bits)) := by
  have hne : bits ≠ 0 := by omega
  simp only [integerHost, if_neg hne]
  split
  · next width hfind =>
    have hleast := least_of_find? (by decide) hfind
    apply HoldsBits.native (List.mem_of_find?_eq_some hfind)
    · have hwide := List.find?_some hfind
      exact of_decide_eq_true hwide
    · intro other hmem hother
      exact hleast other hmem (decide_eq_true hother)
  · next hfind =>
    apply HoldsBits.big
    simpa using List.find?_eq_none.mp hfind 128 (by decide)

theorem mirrors_ofElementary {kind : Elementary} (h : kind.Supported) {binding : Binding}
    (hbinding : ofElementary kind = .ok binding) : Mirrors (.elementary kind) binding := by
  cases kind with
  | uint bits =>
    obtain ⟨n, rfl, -, hpos, -⟩ := h
    cases hbinding
    exact .leaf ⟨n, rfl, holdsBits_integerHost "UInt" (by omega)⟩
  | int bits =>
    obtain ⟨n, rfl, -, hpos, -⟩ := h
    cases hbinding
    exact .leaf ⟨n, rfl, holdsBits_integerHost "Int" (by omega)⟩
  | foreign kind bits => cases hbinding
  | absent => cases hbinding
  | _ =>
    cases hbinding
    exact .leaf trivial

/-- The binding of a supported type has parts as the type has them, and no integer in it is cut
off. -/
theorem mirrors_ofType {type : AbiType} (h : type.Supported) {binding : Binding}
    (hbinding : ofType type = .ok binding) : Mirrors type binding := by
  induction type using AbiType.induct generalizing binding with
  | elementary kind =>
    rw [AbiType.Supported] at h
    rw [ofType] at hbinding
    exact mirrors_ofElementary h hbinding
  | array length item ih =>
    simp only [ofType, bind_eq_ok, pure_eq_ok, Except.ok.injEq] at hbinding
    obtain ⟨inner, hinner, rfl⟩ := hbinding
    cases length with
    | none => exact .array (ih h.item hinner)
    | some n => exact .array (ih h.item hinner)
  | tuple parts ih =>
    simp only [ofType, bind_eq_ok, pure_eq_ok, Except.ok.injEq] at hbinding
    obtain ⟨bindings, hbindings, rfl⟩ := hbinding
    rw [AbiType.supported_tuple] at h
    apply Mirrors.tuple
    have hall := ofComponents_eq_ok.mp hbindings
    clear hbindings
    induction hall with
    | nil => exact .nil
    | cons hfirst _ ihrest =>
      rw [List.forall_mem_cons] at h ih
      exact .cons (ih.1 h.1 hfirst) (ihrest ih.2 h.2)

theorem exists_mapM_id {texts : List (Option Text)} (h : ∀ text ∈ texts, ∃ t, text = some t) :
    ∃ ts, texts.mapM id = some ts := by
  induction texts with
  | nil => exact ⟨[], rfl⟩
  | cons text rest ih =>
    rw [List.forall_mem_cons] at h
    obtain ⟨⟨t, rfl⟩, hrest⟩ := h
    obtain ⟨ts, hts⟩ := ih hrest
    exact ⟨t :: ts, by simp [List.mapM_cons, hts]⟩

theorem exists_describe {name : Text} (hname : name ≠ "FixedArray") (size : Option Int)
    {params : List HostType} (h : ∀ param ∈ params, ∃ text, param.describe? = some text) :
    ∃ text, HostType.describe? ⟨name, size, params⟩ = some text := by
  rw [HostType.describe?]
  unfold HostType.describeParts
  split
  · exact ⟨_, rfl⟩
  split
  · exact ⟨_, rfl⟩
  · have hall : ∀ text ∈ HostType.describeEach params, ∃ t, text = some t := by
      rw [HostType.describeEach_eq_map, List.forall_mem_map]
      exact h
    obtain ⟨texts, htexts⟩ := exists_mapM_id hall
    rw [htexts]
    exact ⟨_, rfl⟩

theorem exists_describe_integerHost {sign : Text} (h : sign.head? ≠ some (CodePoint.ofChar 'F'))
    (hne : sign ≠ []) (bits : Option Int) :
    ∃ text, (integerHost sign bits).describe? = some text := by
  simp only [integerHost]
  split
  · exact exists_describe (append_ne_of_head? h hne _) none (by simp)
  · exact exists_describe (append_ne_of_head? (by decide) (by decide) _) none (by simp)

/-- The host type of a binding can be described. -/
theorem exists_describe_ofType {type : AbiType} {binding : Binding}
    (h : ofType type = .ok binding) : ∃ text, binding.host.describe? = some text := by
  induction type using AbiType.induct generalizing binding with
  | elementary kind =>
    rw [ofType] at h
    cases kind with
    | uint bits =>
      cases h
      exact exists_describe_integerHost (by decide) (by decide) bits
    | int bits =>
      cases h
      exact exists_describe_integerHost (by decide) (by decide) bits
    | foreign kind bits => cases h
    | absent => cases h
    | _ =>
      cases h
      exact exists_describe (by decide) _ (by simp)
  | array length item ih =>
    simp only [ofType, bind_eq_ok, pure_eq_ok, Except.ok.injEq] at h
    obtain ⟨inner, hinner, rfl⟩ := h
    obtain ⟨text, htext⟩ := ih hinner
    cases length with
    | none => exact exists_describe (by decide) none (by simpa using ⟨text, htext⟩)
    | some n =>
      refine ⟨"FixedArray<" ++ text ++ ", " ++ HostType.sizeText (some n) ++ ">", ?_⟩
      rw [ofArray, HostType.describe?, HostType.describeEach, htext]
      rfl
  | tuple parts ih =>
    simp only [ofType, bind_eq_ok, pure_eq_ok, Except.ok.injEq] at h
    obtain ⟨bindings, hbindings, rfl⟩ := h
    apply exists_describe (by decide)
    rw [List.forall_mem_map]
    intro element helement
    obtain ⟨part, hpart, hof⟩ := exists_of_forall₂ (ofComponents_eq_ok.mp hbindings) helement
    exact ih part hpart hof

/-- The names of components play no part in a binding. -/
theorem ofType_eraseNames (type : AbiType) : ofType type.eraseNames = ofType type := by
  induction type using AbiType.induct with
  | elementary kind => rfl
  | array length item ih => rw [AbiType.eraseNames, ofType, ofType, ih]
  | tuple parts ih =>
    have hparts : ofComponents (AbiType.eraseAllNames parts) = ofComponents parts := by
      induction parts with
      | nil => rfl
      | cons part rest ihrest =>
        obtain ⟨name, type⟩ := part
        rw [List.forall_mem_cons] at ih
        rw [AbiType.eraseAllNames, ofComponents, ofComponents, ih.1, ihrest ih.2]
    rw [AbiType.eraseNames, ofType, ofType, hparts]

/-- Types that were read have bindings. Two of them have one binding exactly when they have one
canonical spelling, and so it is with the JSON of bindings, where the order of fields does not
count and the host type is described in full. The parts of a binding stand as the parts of its
type do, with host types that hold every integer. -/
theorem ofType_eq_iff {text text' components components' : Json} {path path' : Option Text}
    {type type' : AbiType} (h : AbiType.parse text components path = .ok type)
    (h' : AbiType.parse text' components' path' = .ok type') :
    ∃ binding binding', ofType type = .ok binding ∧ ofType type' = .ok binding' ∧
      (binding = binding' ↔ type.canonical = type'.canonical) ∧
      (binding.toJson.sorted = binding'.toJson.sorted ↔ type.canonical = type'.canonical) ∧
      (∃ text, binding.host.describe? = some text) ∧ Mirrors type binding := by
  have hsupported := AbiType.supported_of_parse h
  have hsupported' := AbiType.supported_of_parse h'
  obtain ⟨binding, hbinding⟩ := exists_ofType hsupported
  obtain ⟨binding', hbinding'⟩ := exists_ofType hsupported'
  have hsame : type.canonical = type'.canonical → binding = binding' := by
    intro hspelled
    have hnames := (AbiType.canonical_eq_iff hsupported hsupported').mp hspelled
    rw [← ofType_eraseNames, hnames, ofType_eraseNames, hbinding'] at hbinding
    exact (Except.ok.inj hbinding).symm
  have hwire : binding.wire = binding'.wire → type.canonical = type'.canonical := by
    intro hwires
    rw [← wire_ofType hbinding, ← wire_ofType hbinding', hwires]
  refine ⟨binding, binding', hbinding, hbinding', ⟨?_, hsame⟩, ⟨?_, ?_⟩,
    exists_describe_ofType hbinding, mirrors_ofType hsupported hbinding⟩
  · intro heq
    exact hwire (congrArg wire heq)
  · intro hsorted
    exact hwire (wire_eq_of_sorted binding binding' hsorted)
  · intro hspelled
    rw [hsame hspelled]

/-- Lists of integers of 40 and of 64 bits, which share their host types. -/
theorem ofType_eq_iff_widths :
    ∃ binding binding', ofType (.array none (.elementary (.uint (some 40)))) = .ok binding ∧
      ofType (.array none (.elementary (.uint (some 64)))) = .ok binding' ∧
      binding.host = binding'.host ∧ binding ≠ binding' ∧
      binding.toJson.sorted ≠ binding'.toJson.sorted ∧
      Mirrors (.array none (.elementary (.uint (some 40)))) binding := by
  have hread : AbiType.parse (.str "uint40[]") .null none =
      .ok (.array none (.elementary (.uint (some 40)))) := rfl
  have hread' : AbiType.parse (.str " uint64[]") .null none =
      .ok (.array none (.elementary (.uint (some 64)))) := rfl
  obtain ⟨binding, binding', hbinding, hbinding', heq, hjson, -, hmirrors⟩ :=
    ofType_eq_iff hread hread'
  have hspelled : (AbiType.array none (.elementary (.uint (some 40)))).canonical ≠
      (AbiType.array none (.elementary (.uint (some 64)))).canonical := by decide
  have hhost : binding.host = binding'.host := by
    cases hbinding
    cases hbinding'
    rfl
  exact ⟨binding, binding', hbinding, hbinding', hhost, fun h => hspelled (heq.mp h),
    fun h => hspelled (hjson.mp h), hmirrors⟩

end Binding

end AbiBindings
