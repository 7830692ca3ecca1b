import AbiBindings.Proofs.AbiType.Encodable
import AbiBindings.Proofs.Binding.Sharing

/-!
Fields as written text. The words for host types, codecs and annotations are the program's own, so
a field has a UTF-8 form if its names have one.
-/

namespace AbiBindings

open Text (Encodable)
open Outcome

namespace HostType

def Shows (P : CodePoint → Prop) (text : Option Text) : Prop := ∀ t, text = some t → ∀ c ∈ t, P c

def Written (text : Option Text) : Prop := ∀ t, text = some t → Encodable t

theorem written_iff {text : Option Text} :
    Written text ↔ Shows (fun c => c.isSurrogate = false) text := Iff.rfl

section

variable {P : CodePoint → Prop}

theorem shows_some {text : Text} : Shows P (some text) ↔ ∀ c ∈ text, P c := by
  simp [Shows]

theorem shows_mapM {parts : List (Option Text)} (h : ∀ part ∈ parts, Shows P part)
    {texts : List Text} (htexts : parts.mapM id = some texts) :
    ∀ text ∈ texts, ∀ c ∈ text, P c := by
  induction parts generalizing texts with
  | nil =>
    cases htexts
    simp
  | cons part rest ih =>
    rw [List.forall_mem_cons] at h
    simp only [List.mapM_cons, id_eq, Option.bind_eq_bind, Option.bind_eq_some_iff,
      Option.pure_def, Option.some.injEq] at htexts
    obtain ⟨first, hfirst, others, hothers, rfl⟩ := htexts
    exact List.forall_mem_cons.mpr ⟨h.1 first hfirst, ih h.2 hothers⟩

theorem shows_join {parts : List (Option Text)} (h : ∀ part ∈ parts, Shows P part)
    {opening closing : Text} (hopening : ∀ c ∈ opening, P c) (hclosing : ∀ c ∈ closing, P c)
    (hcomma : ∀ c ∈ (", " : Text), P c) :
    Shows P ((parts.mapM id).map fun texts => opening ++ Text.join ", " texts ++ closing) := by
  intro text htext
  obtain ⟨texts, htexts, rfl⟩ := Option.map_eq_some_iff.mp htext
  have hall := shows_mapM h htexts
  simp only [List.forall_mem_append, Text.forall_mem_join hcomma]
  exact ⟨⟨hopening, hall⟩, hclosing⟩

def annotationWords : List Text :=
  ["int", "bool", "str", "bytes", "List[", "]", "Tuple[()]", "Tuple[", ", ", "Any"].map
    Text.ofString

theorem shows_annotateParts (hwords : ∀ word ∈ annotationWords, ∀ c ∈ word, P c) (name : Text)
    {params : List (Option Text)} (h : ∀ param ∈ params, Shows P param) :
    Shows P (annotateParts name params) := by
  have hword {word : Text} (hmem : word ∈ annotationWords) : Shows P (some word) :=
    shows_some.mpr (hwords word hmem)
  unfold annotateParts
  split
  · exact hword (by decide)
  split
  · exact hword (by decide)
  split
  · exact hword (by decide)
  split
  · exact hword (by decide)
  split
  · cases params with
    | nil => simp [Shows]
    | cons item rest =>
      intro text htext
      obtain ⟨inner, hinner, rfl⟩ := Option.map_eq_some_iff.mp htext
      simp only [List.forall_mem_append]
      exact ⟨⟨hwords _ (by decide), h item List.mem_cons_self inner hinner⟩, hwords _ (by decide)⟩
  split
  · split
    · exact hword (by decide)
    · exact shows_join h (hwords _ (by decide)) (hwords _ (by decide)) (hwords _ (by decide))
  · exact hword (by decide)

mutual

/-- Annotations are made of a few words of the program. -/
theorem shows_annotate (hwords : ∀ word ∈ annotationWords, ∀ c ∈ word, P c) :
    (host : HostType) → Shows P host.annotation?
  | ⟨name, _, params⟩ => shows_annotateParts hwords name (shows_annotateEach hwords params)

theorem shows_annotateEach (hwords : ∀ word ∈ annotationWords, ∀ c ∈ word, P c) :
    (params : List HostType) → ∀ text ∈ annotateEach params, Shows P text
  | [] => by simp [annotateEach]
  | param :: rest => by
    rw [annotateEach, List.forall_mem_cons]
    exact ⟨shows_annotate hwords param, shows_annotateEach hwords rest⟩

end

end

theorem written_some {text : Text} : Written (some text) ↔ Encodable text := shows_some

theorem written_join {parts : List (Option Text)} (h : ∀ part ∈ parts, Written part)
    {opening closing : Text} (hopening : Encodable opening) (hclosing : Encodable closing) :
    Written ((parts.mapM id).map fun texts => opening ++ Text.join ", " texts ++ closing) :=
  written_iff.mpr (shows_join h hopening hclosing (Text.encodable_ofString _))

theorem written_annotate (host : HostType) : Written host.annotation? := by
  apply shows_annotate
  rw [annotationWords, List.forall_mem_map]
  exact fun word _ => Text.encodable_ofString word

/-- A description is made of the name, of sizes and of the descriptions of parameters. -/
theorem written_describeParts {name : Text} (hname : Encodable name) (size : Option Int)
    {params : List (Option Text)} (h : ∀ param ∈ params, Written param) :
    Written (describeParts name size params) := by
  have hsize : Encodable (sizeText size) := by cases size <;> simp [sizeText]
  unfold describeParts
  split
  · simp [written_some, hname, hsize]
  split
  · cases params with
    | nil => simp [Written]
    | cons item rest =>
      intro text htext
      obtain ⟨inner, hinner, rfl⟩ := Option.map_eq_some_iff.mp htext
      simp [h item List.mem_cons_self inner hinner, hsize]
  split
  · exact written_some.mpr hname
  · apply written_join h _ (Text.encodable_ofString _)
    simp [hname]

theorem describeEach_eq_map (params : List HostType) :
    describeEach params = params.map describe? := by
  induction params with
  | nil => rfl
  | cons param rest ih => rw [describeEach, ih, List.map_cons]

theorem written_describe {name : Text} (hname : Encodable name) (size : Option Int)
    {params : List HostType} (h : ∀ param ∈ params, Written param.describe?) :
    Written (describe? ⟨name, size, params⟩) := by
  rw [describe?]
  apply written_describeParts hname
  rw [describeEach_eq_map, List.forall_mem_map]
  exact h

end HostType

namespace Binding

structure Written (binding : Binding) : Prop where
  host : HostType.Written binding.host.describe?
  toJson : binding.toJson.AllEncodable

theorem toJsons_eq_map (elements : List Binding) : toJsons elements = elements.map toJson := by
  induction elements with
  | nil => rfl
  | cons element rest ih => rw [toJsons, ih, List.map_cons]

theorem written_mk {host : HostType} {codec : Text} {elements : List Binding}
    (hhost : HostType.Written host.describe?) (hcodec : Encodable codec)
    (helements : ∀ element ∈ elements, element.Written) : Written ⟨host, codec, elements⟩ where
  host := hhost
  toJson := by
    have hdescription : Encodable (host.describe?.getD []) := by
      cases hdescribe : host.describe? with
      | none => exact Text.encodable_nil
      | some text => exact hhost text hdescribe
    have hparts : ∀ item ∈ toJsons elements, item.AllEncodable := by
      rw [toJsons_eq_map, List.forall_mem_map]
      exact fun element helement => (helements element helement).toJson
    rw [Binding.toJson]
    by_cases hempty : elements.isEmpty = true
    · simp [hempty, hdescription, hcodec]
    · simpa [hempty, hdescription, hcodec] using hparts

theorem written_plain {name codec : Text} (hname : Encodable name) (size : Option Int)
    (hcodec : Encodable codec) : Written ⟨⟨name, size, []⟩, codec, []⟩ :=
  written_mk (HostType.written_describe hname size (by simp)) hcodec (by simp)

theorem integerHost_eq (base : Text) (hbase : Encodable base) (bits : Option Int) :
    ∃ name, Encodable name ∧ integerHost base bits = .plain name := by
  simp only [integerHost]
  split
  · exact ⟨_, by simp [hbase], rfl⟩
  · exact ⟨_, by simp [hbase], rfl⟩

theorem written_ofElementary {kind : Elementary} {binding : Binding}
    (h : ofElementary kind = .ok binding) : binding.Written := by
  have hsize (size : Option Int) : Encodable (AbiType.sizeText size) := by
    cases size <;> simp [AbiType.sizeText]
  cases kind with
  | uint bits =>
    obtain ⟨name, hname, hhost⟩ := integerHost_eq "UInt" (Text.encodable_ofString _) bits
    cases h
    rw [hhost]
    exact written_plain hname none (by simp [Elementary.canonical, hsize])
  | int bits =>
    obtain ⟨name, hname, hhost⟩ := integerHost_eq "Int" (Text.encodable_ofString _) bits
    cases h
    rw [hhost]
    exact written_plain hname none (by simp [Elementary.canonical, hsize])
  | fixedBytes size =>
    cases h
    exact written_plain (Text.encodable_ofString _) _ (by simp [Elementary.canonical])
  | foreign kind bits => cases h
  | absent => cases h
  | _ =>
    cases h
    exact written_plain (Text.encodable_ofString _) _ (Text.encodable_ofString _)

/-- Every binding is written in words of the program alone. -/
theorem written_ofType {type : AbiType} {binding : Binding} (h : ofType type = .ok binding) :
    binding.Written := by
  induction type using AbiType.induct generalizing binding with
  | elementary kind =>
    rw [ofType] at h
    exact written_ofElementary h
  | array length item ih =>
    simp only [ofType, bind_eq_ok, pure_eq_ok, Except.ok.injEq] at h
    obtain ⟨inner, hinner, rfl⟩ := h
    have hitem := ih hinner
    have hall : ∀ element ∈ [inner], element.Written := by simpa using hitem
    have hhosts : ∀ host ∈ [inner.host], HostType.Written host.describe? := by
      simpa using hitem.host
    cases length with
    | none =>
      exact written_mk (HostType.written_describe (Text.encodable_ofString _) _ hhosts)
        (Text.encodable_ofString _) hall
    | some n =>
      exact written_mk (HostType.written_describe (Text.encodable_ofString _) _ hhosts)
        (by simp) hall
  | tuple parts ih =>
    simp only [ofType, bind_eq_ok, pure_eq_ok, Except.ok.injEq] at h
    obtain ⟨bindings, hbindings, rfl⟩ := h
    have hall : ∀ element ∈ bindings, element.Written := by
      intro element helement
      obtain ⟨part, hpart, hof⟩ := exists_of_forall₂ (ofComponents_eq_ok.mp hbindings) helement
      exact ih part hpart hof
    have hhosts : ∀ host ∈ bindings.map Binding.host, HostType.Written host.describe? := by
      rw [List.forall_mem_map]
      exact fun element helement => (hall element helement).host
    exact written_mk (HostType.written_describe (Text.encodable_ofString _) _ hhosts)
      (Text.encodable_ofString _) hall

end Binding

end AbiBindings
