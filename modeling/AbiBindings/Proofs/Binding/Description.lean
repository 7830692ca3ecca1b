import AbiBindings.Proofs.Binding.Wire
import AbiBindings.Proofs.Text.Applied

/-!
The description of a host type tells it apart. It writes out a word applied to arguments: the name,
and after it the parameters and the size where the name calls for one. Such a word has one reading,
and from it the host type can be put together again, because the name says which of the arguments
are parameters and which size goes without saying. Every part of the host type of an ABI type can
be described, and it has an annotation that says what it is.
-/

namespace AbiBindings

open Outcome
open Text (Applied)

namespace HostType

/-- The names of types without parameters whose size is not shown. -/
def plainNames : List Text :=
  ["UInt8", "UInt16", "UInt32", "UInt64", "UInt128", "BigUInt", "Int8", "Int16", "Int32", "Int64",
   "Int128", "BigInt", "Bool", "Address", "Bytes", "Text"].map Text.ofString

/-- The size that goes with a name without saying so. -/
def impliedSize (name : Text) : Option Int := if name = "Address" then some 20 else none

inductive Regular : HostType → Prop
  | plain {name : Text} : name ∈ plainNames → Regular ⟨name, impliedSize name, []⟩
  | fixedBytes (size : Nat) : Regular ⟨"FixedBytes", some size, []⟩
  | list {item : HostType} : Regular item → Regular ⟨"List", none, [item]⟩
  | fixedArray {item : HostType} (size : Nat) : Regular item →
      Regular ⟨"FixedArray", some size, [item]⟩
  | record {params : List HostType} : (∀ param ∈ params, Regular param) →
      Regular ⟨"Record", none, params⟩

/-- A host type stands in another: it is that itself, or stands in a parameter of it. -/
inductive Within (part : HostType) : HostType → Prop
  | self : Within part part
  | param {host param : HostType} : param ∈ host.params → Within part param → Within part host

theorem Regular.of_mem_params {host param : HostType} (h : host.Regular)
    (hmem : param ∈ host.params) : param.Regular := by
  cases h with
  | plain _ => cases hmem
  | fixedBytes _ => cases hmem
  | list hitem => exact List.mem_singleton.mp hmem ▸ hitem
  | fixedArray _ hitem => exact List.mem_singleton.mp hmem ▸ hitem
  | record hparams => exact hparams param hmem

theorem Regular.of_within {part host : HostType} (h : host.Regular) (hwithin : part.Within host) :
    part.Regular := by
  induction hwithin with
  | self => exact h
  | param hmem _ ih => exact ih (h.of_mem_params hmem)

abbrev ShowsSize (name : Text) : Prop := name = "FixedBytes" ∨ name = "FixedArray"

theorem not_showsSize_of_mem_plainNames : ∀ name ∈ plainNames, ¬ ShowsSize name := by decide

/-- The arguments that a description shows: the parameters, and a size where the name calls for
one. -/
def shownArguments (name : Text) (size : Option Int) (params : List Applied) : List Applied :=
  if ShowsSize name then params ++ [⟨sizeText size, []⟩] else params

mutual

def toApplied : HostType → Applied
  | ⟨name, size, params⟩ => ⟨name, shownArguments name size (toAppliedEach params)⟩

def toAppliedEach : List HostType → List Applied
  | [] => []
  | param :: rest => param.toApplied :: toAppliedEach rest

end

def ofArguments (name : Text) (words : List Text) (params : List HostType) : HostType :=
  if ShowsSize name then
    ⟨name, words.getLast?.map fun word => (Text.decimalValue word : Int), params.dropLast⟩
  else ⟨name, impliedSize name, params⟩

mutual

def ofApplied : Applied → HostType
  | ⟨name, arguments⟩ => ofArguments name (arguments.map Applied.word) (ofAppliedEach arguments)

def ofAppliedEach : List Applied → List HostType
  | [] => []
  | argument :: rest => ofApplied argument :: ofAppliedEach rest

end

theorem toAppliedEach_eq_map (params : List HostType) :
    toAppliedEach params = params.map toApplied := by
  induction params with
  | nil => rfl
  | cons param rest ih => rw [toAppliedEach, ih, List.map_cons]

theorem ofAppliedEach_eq_map (arguments : List Applied) :
    ofAppliedEach arguments = arguments.map ofApplied := by
  induction arguments with
  | nil => rfl
  | cons argument rest ih => rw [ofAppliedEach, ih, List.map_cons]

theorem toApplied_of_showsSize {name : Text} (h : ShowsSize name) (size : Nat)
    (params : List HostType) :
    toApplied ⟨name, some size, params⟩ =
      ⟨name, params.map toApplied ++ [⟨Text.ofNat size, []⟩]⟩ := by
  rw [toApplied, toAppliedEach_eq_map, shownArguments, if_pos h, sizeText, Text.ofInt_natCast]

theorem toApplied_of_not_showsSize {name : Text} (h : ¬ ShowsSize name) (size : Option Int)
    (params : List HostType) :
    toApplied ⟨name, size, params⟩ = ⟨name, params.map toApplied⟩ := by
  rw [toApplied, toAppliedEach_eq_map, shownArguments, if_neg h]

theorem ofApplied_of_showsSize {name : Text} (h : ShowsSize name) (size : Nat)
    (arguments : List Applied) :
    ofApplied ⟨name, arguments ++ [⟨Text.ofNat size, []⟩]⟩ =
      ⟨name, some size, arguments.map ofApplied⟩ := by
  rw [ofApplied, ofAppliedEach_eq_map, ofArguments, if_pos h]
  simp [Applied.word, Text.decimalValue_ofNat]

theorem ofApplied_of_not_showsSize {name : Text} (h : ¬ ShowsSize name)
    (arguments : List Applied) :
    ofApplied ⟨name, arguments⟩ = ⟨name, impliedSize name, arguments.map ofApplied⟩ := by
  rw [ofApplied, ofAppliedEach_eq_map, ofArguments, if_neg h]

/-- A regular host type can be put together again from what its description writes out. -/
theorem Regular.ofApplied_toApplied {host : HostType} (h : host.Regular) :
    ofApplied host.toApplied = host := by
  induction h with
  | plain hname =>
    have hsize := not_showsSize_of_mem_plainNames _ hname
    rw [toApplied_of_not_showsSize hsize, ofApplied_of_not_showsSize hsize]
    rfl
  | fixedBytes size =>
    rw [toApplied_of_showsSize (.inl rfl), ofApplied_of_showsSize (.inl rfl)]
    rfl
  | list _ ih =>
    have hsize : ¬ ShowsSize "List" := by decide
    rw [toApplied_of_not_showsSize hsize, ofApplied_of_not_showsSize hsize, List.map_singleton,
      List.map_singleton, ih]
    rfl
  | fixedArray size _ ih =>
    rw [toApplied_of_showsSize (.inr rfl), ofApplied_of_showsSize (.inr rfl), List.map_singleton,
      List.map_singleton, ih]
  | @record params _ ih =>
    have hsize : ¬ ShowsSize "Record" := by decide
    have hparams : params.map (ofApplied ∘ toApplied) = params :=
      (List.map_congr_left ih).trans (List.map_id params)
    rw [toApplied_of_not_showsSize hsize, ofApplied_of_not_showsSize hsize, List.map_map, hparams]
    rfl

theorem isAlphanumeric_of_mem_plainNames :
    ∀ name ∈ plainNames, ∀ c ∈ name, c.isAlphanumeric = true := by decide

theorem legible_size (size : Nat) : Applied.Legible ⟨Text.ofNat size, []⟩ := by
  refine .mk (fun c hc => ?_) (List.forall_mem_nil _)
  rw [CodePoint.isAlphanumeric, Text.isDigit_of_mem_ofNat hc, Bool.or_true]

/-- Names and sizes are letters and digits. -/
theorem Regular.legible_toApplied {host : HostType} (h : host.Regular) :
    host.toApplied.Legible := by
  induction h with
  | plain hname =>
    rw [toApplied_of_not_showsSize (not_showsSize_of_mem_plainNames _ hname)]
    exact .mk (isAlphanumeric_of_mem_plainNames _ hname) (List.forall_mem_nil _)
  | fixedBytes size =>
    rw [toApplied_of_showsSize (.inl rfl)]
    exact .mk (by decide) (List.forall_mem_singleton.mpr (legible_size size))
  | list _ ih =>
    rw [toApplied_of_not_showsSize (by decide)]
    exact .mk (by decide) (List.forall_mem_singleton.mpr ih)
  | fixedArray size _ ih =>
    rw [toApplied_of_showsSize (.inr rfl)]
    refine .mk (by decide) (List.forall_mem_append.mpr ⟨?_, ?_⟩)
    · exact List.forall_mem_singleton.mpr ih
    · exact List.forall_mem_singleton.mpr (legible_size size)
  | record _ ih =>
    rw [toApplied_of_not_showsSize (by decide)]
    exact .mk (by decide) (List.forall_mem_map.mpr ih)

theorem mapM_id_map {α : Type} {f : α → Option Text} {g : α → Text} {xs : List α}
    (h : ∀ x ∈ xs, f x = some (g x)) : (xs.map f).mapM id = some (xs.map g) := by
  induction xs with
  | nil => rfl
  | cons x rest ih =>
    rw [List.forall_mem_cons] at h
    simp [List.mapM_cons, h.1, ih h.2]

/-- The description of a regular host type is the applied word, written out. -/
theorem Regular.describe?_eq {host : HostType} (h : host.Regular) :
    host.describe? = some host.toApplied.written := by
  induction h with
  | @plain name hname =>
    have hsize := not_or.mp (not_showsSize_of_mem_plainNames _ hname)
    have hdescribed : describe? ⟨name, impliedSize name, []⟩ = some name := by
      rw [describe?, describeParts.eq_def, if_neg hsize.1, if_neg hsize.2]
      rfl
    rw [hdescribed, toApplied_of_not_showsSize (not_or.mpr hsize), List.map_nil,
      Applied.written_word]
  | fixedBytes size =>
    have hdescribed : describe? ⟨"FixedBytes", some size, []⟩ =
        some ("FixedBytes" ++ "<" ++ sizeText (some size) ++ ">") := rfl
    rw [hdescribed, sizeText, Text.ofInt_natCast, toApplied_of_showsSize (.inl rfl),
      Applied.written_mk, List.map_nil, List.nil_append, List.map_singleton, Applied.written_word]
    rfl
  | list _ ih =>
    rw [describe?, describeEach, ih, toApplied_of_not_showsSize (by decide)]
    rfl
  | @fixedArray item size _ ih =>
    have hdescribed : describe? ⟨"FixedArray", some size, [item]⟩ =
        item.describe?.map fun text =>
          "FixedArray<" ++ text ++ ", " ++ sizeText (some size) ++ ">" := rfl
    rw [hdescribed, ih, Option.map_some, sizeText, Text.ofInt_natCast,
      toApplied_of_showsSize (.inr rfl), Applied.written_mk, List.map_append, List.map_singleton,
      List.map_singleton, List.map_singleton, Applied.written_word]
    rfl
  | @record params _ ih =>
    rw [toApplied_of_not_showsSize (by decide), Applied.written_mk, List.map_map]
    cases params with
    | nil => rfl
    | cons first others =>
      have hdescribed : describe? ⟨"Record", none, first :: others⟩ =
          ((describeEach (first :: others)).mapM id).map fun texts =>
            "Record" ++ "<" ++ Text.join ", " texts ++ ">" := rfl
      rw [hdescribed, describeEach_eq_map, mapM_id_map ih]
      rfl

/-- Regular host types with one description are the same. -/
theorem Regular.eq_of_describe? {host other : HostType} (h : host.Regular) (hother : other.Regular)
    (heq : host.describe? = other.describe?) : host = other := by
  rw [h.describe?_eq, hother.describe?_eq] at heq
  have happlied := h.legible_toApplied.eq_of_written hother.legible_toApplied (Option.some.inj heq)
  rw [← h.ofApplied_toApplied, happlied, hother.ofApplied_toApplied]

/-- The letter with which the annotation of a type without a counterpart starts. -/
abbrev foreignLetter : CodePoint := CodePoint.ofChar 'A'

/-- There is an annotation, and it does not show that letter. -/
def Annotated (shown : Option Text) : Prop :=
  ∃ text, shown = some text ∧ ∀ c ∈ text, c ≠ foreignLetter

theorem annotated_of_any {shown : Option Text}
    (h : (shown.any fun text => text.all (· != foreignLetter)) = true) :
    Annotated shown := by
  rw [Option.any_eq_true] at h
  obtain ⟨text, htext, hletters⟩ := h
  exact ⟨text, htext, by simpa using hletters⟩

theorem any_annotateParts_plainNames : ∀ name ∈ plainNames,
    ((annotateParts name []).any fun text => text.all (· != foreignLetter)) = true := by decide

theorem Annotated.list {item : Option Text} (h : Annotated item) :
    Annotated (item.map fun item => "List[" ++ item ++ "]") := by
  obtain ⟨text, rfl, hletters⟩ := h
  refine ⟨_, rfl, ?_⟩
  simp only [List.forall_mem_append]
  exact ⟨⟨by decide, hletters⟩, by decide⟩

theorem annotated_tuple {params : List (Option Text)} (h : ∀ param ∈ params, Annotated param) :
    Annotated ((params.mapM id).map fun params => "Tuple[" ++ Text.join ", " params ++ "]") := by
  have hshows : ∀ param ∈ params, Shows (· ≠ foreignLetter) param := by
    intro param hmem text htext
    obtain ⟨_, rfl, hletters⟩ := h param hmem
    exact Option.some.inj htext ▸ hletters
  have hexists : ∀ param ∈ params, ∃ text, param = some text := by
    intro param hmem
    obtain ⟨text, htext, -⟩ := h param hmem
    exact ⟨text, htext⟩
  obtain ⟨texts, htexts⟩ := Binding.exists_mapM_id hexists
  refine ⟨_, congrArg _ htexts, ?_⟩
  exact shows_join hshows (by decide) (by decide) (by decide) _ (congrArg _ htexts)

theorem annotateEach_eq_map (params : List HostType) :
    annotateEach params = params.map annotation? := by
  induction params with
  | nil => rfl
  | cons param rest ih => rw [annotateEach, ih, List.map_cons]

/-- Nothing in a regular host type is without a counterpart. -/
theorem Regular.annotated {host : HostType} (h : host.Regular) : Annotated host.annotation? := by
  induction h with
  | plain hname => exact annotated_of_any (any_annotateParts_plainNames _ hname)
  | fixedBytes size => exact ⟨"bytes", rfl, by decide⟩
  | list _ ih => exact ih.list
  | fixedArray size _ ih => exact ih.list
  | @record params _ ih =>
    rw [annotation?, annotateEach_eq_map]
    cases params with
    | nil => exact annotated_of_any (by decide)
    | cons first others => exact annotated_tuple (List.forall_mem_map.mpr ih)

/-- What can be said of a host type: an array has one parameter, and there are a description and an
annotation, which nowhere says that something has no counterpart. -/
structure Known (host : HostType) : Prop where
  params : host.name = "FixedArray" ∨ host.name = "List" → ∃ item, host.params = [item]
  description : ∃ text, host.describe? = some text
  annotation : ∃ text, host.annotation? = some text ∧ ¬ ("Any" : Text) <:+: text

theorem not_array_of_mem_plainNames :
    ∀ name ∈ plainNames, ¬ (name = "FixedArray" ∨ name = "List") := by decide

theorem Regular.known {host : HostType} (h : host.Regular) : host.Known where
  params := by
    intro harray
    cases h with
    | plain hname => exact absurd harray (not_array_of_mem_plainNames _ hname)
    | fixedBytes _ =>
      dsimp only at harray
      exact absurd harray (by decide)
    | @list item _ => exact ⟨item, rfl⟩
    | @fixedArray item _ _ => exact ⟨item, rfl⟩
    | record _ =>
      dsimp only at harray
      exact absurd harray (by decide)
  description := ⟨_, h.describe?_eq⟩
  annotation := by
    obtain ⟨text, htext, hletters⟩ := h.annotated
    exact ⟨text, htext, fun hany => hletters _ (hany.subset List.mem_cons_self) rfl⟩

end HostType

namespace Binding

open HostType (Regular)

theorem regular_plain : ∀ name ∈ HostType.plainNames, name ≠ "Address" →
    (HostType.plain name).Regular := by
  intro name hname hne
  have hregular := Regular.plain hname
  rwa [HostType.impliedSize, if_neg hne] at hregular

theorem regular_integerHost {sign : Text} (hsign : sign = "UInt" ∨ sign = "Int")
    (bits : Option Int) : (integerHost sign bits).Regular := by
  have hnative : ∀ sign ∈ [("UInt" : Text), "Int"], ∀ width ∈ nativeWidths,
      sign ++ Text.ofNat width ∈ HostType.plainNames ∧ sign ++ Text.ofNat width ≠ "Address" := by
    decide
  have hbig : ∀ sign ∈ [("UInt" : Text), "Int"],
      "Big" ++ sign ∈ HostType.plainNames ∧ "Big" ++ sign ≠ "Address" := by decide
  have hmem : sign ∈ [("UInt" : Text), "Int"] := by simpa using hsign
  simp only [integerHost]
  split
  · next width hfind =>
    obtain ⟨hname, hne⟩ := hnative sign hmem width (List.mem_of_find?_eq_some hfind)
    exact regular_plain _ hname hne
  · obtain ⟨hname, hne⟩ := hbig sign hmem
    exact regular_plain _ hname hne

theorem regular_ofElementary {kind : Elementary} (h : kind.Supported) {binding : Binding}
    (hbinding : ofElementary kind = .ok binding) : binding.host.Regular := by
  cases kind with
  | uint bits =>
    cases hbinding
    exact regular_integerHost (.inl rfl) bits
  | int bits =>
    cases hbinding
    exact regular_integerHost (.inr rfl) bits
  | fixedBytes size =>
    obtain ⟨n, rfl, -, -⟩ := h
    cases hbinding
    exact .fixedBytes n
  | address bits =>
    cases hbinding
    exact Regular.plain (by decide : ("Address" : Text) ∈ HostType.plainNames)
  | bool bits =>
    cases hbinding
    exact regular_plain _ (by decide) (by decide)
  | bytes =>
    cases hbinding
    exact regular_plain _ (by decide) (by decide)
  | string =>
    cases hbinding
    exact regular_plain _ (by decide) (by decide)
  | foreign kind bits => cases hbinding
  | absent => cases hbinding

/-- ABI types that reading can give have regular host types. -/
theorem regular_ofType {type : AbiType} (h : type.Supported) {binding : Binding}
    (hbinding : ofType type = .ok binding) : binding.host.Regular := by
  induction type using AbiType.induct generalizing binding with
  | elementary kind =>
    rw [AbiType.Supported] at h
    rw [ofType] at hbinding
    exact regular_ofElementary h hbinding
  | array length item ih =>
    simp only [ofType, bind_eq_ok, pure_eq_ok, Except.ok.injEq] at hbinding
    obtain ⟨inner, hinner, rfl⟩ := hbinding
    cases length with
    | none => exact .list (ih h.item hinner)
    | some length =>
      rw [AbiType.Supported] at h
      obtain ⟨⟨n, rfl, -⟩, hitem⟩ := h
      exact .fixedArray n (ih hitem hinner)
  | tuple parts ih =>
    simp only [ofType, bind_eq_ok, pure_eq_ok, Except.ok.injEq] at hbinding
    obtain ⟨bindings, hbindings, rfl⟩ := hbinding
    rw [AbiType.supported_tuple] at h
    apply Regular.record
    rw [List.forall_mem_map]
    intro element helement
    obtain ⟨part, hpart, hof⟩ := exists_of_forall₂ (ofComponents_eq_ok.mp hbindings) helement
    exact ih part hpart (h part hpart) hof

/-- Types that were read are bound to host types that are told apart by their descriptions. In such
a host type every part, at any depth, can be described and annotated: arrays have one parameter, and
nothing is without a counterpart. -/
theorem describe?_eq_iff {text text' components components' : Json} {path path' : Option Text}
    {type type' : AbiType} (h : AbiType.parse text components path = .ok type)
    (h' : AbiType.parse text' components' path' = .ok type') :
    ∃ binding binding', Memo.IsFresh type binding ∧ Memo.IsFresh type' binding' ∧
      (∀ part : HostType, part.Within binding.host → part.Known) ∧
      (binding.host.describe? = binding'.host.describe? ↔ binding.host = binding'.host) := by
  have hsupported := AbiType.supported_of_parse h
  have hsupported' := AbiType.supported_of_parse h'
  obtain ⟨binding, hbinding⟩ := exists_ofType hsupported
  obtain ⟨binding', hbinding'⟩ := exists_ofType hsupported'
  have hregular := regular_ofType hsupported hbinding
  have hregular' := regular_ofType hsupported' hbinding'
  refine ⟨binding, binding', Memo.isFresh_of_ofType hbinding, Memo.isFresh_of_ofType hbinding',
    fun part hwithin => (hregular.of_within hwithin).known, ?_, congrArg _⟩
  exact hregular.eq_of_describe? hregular'

/-- A pair of arrays and an array of pairs. -/
theorem describe?_eq_iff_nested :
    ∃ binding binding',
      Memo.IsFresh (.tuple [([], .array (some 3) (.elementary (.uint (some 8)))),
        ([], .array none (.elementary (.fixedBytes 32)))]) binding ∧
      Memo.IsFresh (.array none (.tuple [([], .array (some 3) (.elementary (.uint (some 8)))),
        ([], .elementary (.fixedBytes 32))])) binding' ∧
      binding.host.describe? =
        some ("Record<FixedArray<UInt8, 3>, List<FixedBytes<32>>>" : Text) ∧
      binding'.host.describe? =
        some ("List<Record<FixedArray<UInt8, 3>, FixedBytes<32>>>" : Text) ∧
      binding.host ≠ binding'.host ∧
      ∀ part : HostType, part.Within binding.host → part.Known := by
  have hread : AbiType.parse (.str "(uint8[3],bytes32[])") .null none =
      .ok (.tuple [([], .array (some 3) (.elementary (.uint (some 8)))),
        ([], .array none (.elementary (.fixedBytes 32)))]) := rfl
  have hread' : AbiType.parse (.str "(uint8[3],bytes32)[]") .null none =
      .ok (.array none (.tuple [([], .array (some 3) (.elementary (.uint (some 8)))),
        ([], .elementary (.fixedBytes 32))])) := rfl
  obtain ⟨binding, binding', hfresh, hfresh', hknown, hiff⟩ := describe?_eq_iff hread hread'
  obtain ⟨memo, hbind⟩ := hfresh
  obtain ⟨memo', hbind'⟩ := hfresh'
  have hdescribed : binding.host.describe? =
      some ("Record<FixedArray<UInt8, 3>, List<FixedBytes<32>>>" : Text) := by
    cases hbind
    rfl
  have hdescribed' : binding'.host.describe? =
      some ("List<Record<FixedArray<UInt8, 3>, FixedBytes<32>>>" : Text) := by
    cases hbind'
    rfl
  refine ⟨binding, binding', ⟨memo, hbind⟩, ⟨memo', hbind'⟩, hdescribed, hdescribed', ?_, hknown⟩
  rw [ne_eq, ← hiff, hdescribed, hdescribed']
  decide

end Binding

end AbiBindings
