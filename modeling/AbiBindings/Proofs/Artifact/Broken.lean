import AbiBindings.Proofs.Artifact.Stopping
import AbiBindings.Proofs.Schema.Breaches

/-!
Where a broken shape is reported. The document is checked as a whole and its entries one by one, so
the place of a breach is a place in the document either way, and the value there breaks the shape
that it has to follow: that of a document, or that of an entry of its kind, or one which these hand
down to it.
-/

namespace AbiBindings.Artifact

open Outcome

/-- The shapes that a document and the values in it have to follow: the shape of documents, and for
each entry of the ABI list the one of the kind that it declares, with what they hand down.
`Governs document location shape part` says that the location leads to the part, which has to follow
the shape. -/
inductive Governs (document : Json) : Location → Shape → Json → Prop
  | document {location : Location} {shape : Shape} {part : Json} :
      Shape.document.Governs Shape.ofItem document location shape part →
      Governs document location shape part
  | entry {items : List Json} {position : Nat} {item : Json} {kind : EntryKind}
      {location : Location} {shape : Shape} {part : Json} :
      document.field? "abi" = some (.arr items) → items[position]? = some item →
      Declares item kind → (Shape.ofEntry kind).Governs Shape.ofItem item location shape part →
      Governs document ([.key "abi", .index position] ++ location) shape part

theorem Governs.at?_eq {document part : Json} {location : Location} {shape : Shape}
    (h : Governs document location shape part) : document.at? location = some part := by
  cases h with
  | document hgoverns => exact hgoverns.at?_eq
  | @entry items position item kind _ _ _ habi hitem _ hgoverns =>
    have hplace : document.at? [.key "abi", .index position] = some item := by
      cases document with
      | obj fields =>
        have hstep : (Json.obj fields).step? (.key "abi") = some (.arr items) := habi
        have hnext : (Json.arr items).step? (.index position) = some item := hitem
        rw [Json.at?, hstep, Option.bind_some, Json.at?, hnext, Option.bind_some, Json.at?]
      | _ => cases habi
    rw [Json.at?_append, hplace, Option.bind_some]
    exact hgoverns.at?_eq

/-- A check that does not pass reports a breach at a place below the value. -/
theorem check_eq_breach {shape : Shape} {value : Json} {place : Location} {path : Text}
    {breach : Breach} (hdistinct : value.Distinct)
    (h : check shape value place = .error (.invalidArtifact path (.breach breach))) :
    ∃ location inner part, Location.write (place ++ location) = path ∧
      shape.Governs Shape.ofItem value location inner part ∧
      inner.Breaks Shape.ofItem part breach := by
  rw [check] at h
  split at h
  · cases h
  · next violation hviolation =>
    split at h
    case isFalse => cases h
    obtain ⟨hpath, hreason⟩ := Fault.invalidArtifact.inj (Except.error.inj h)
    have hreal := Json.real_of_mostRelevant? hdistinct hviolation
    cases hreal with
    | mk hgoverns hbreaks _ =>
      obtain rfl := ArtifactFault.breach.inj hreason
      exact ⟨_, _, _, hpath, hgoverns, hbreaks⟩

/-- No breach of a shape comes from reading a type. -/
theorem not_breach_of_parse {text components : Json} {place : Option Text} {path : Text}
    {reason : ArtifactFault} :
    AbiType.parse text components place ≠ .error (.invalidArtifact path reason) := by
  intro h
  unfold AbiType.parse at h
  split at h
  · rcases AbiType.parse_eq_error h with ⟨type, place, cause, hfault, -⟩ | ⟨part, n, hfault, -, -⟩
    · cases hfault
    · cases hfault
  · split at h <;> cases h

theorem distinct_of_documentOf {raw document : Json} (hraw : raw.Distinct)
    (h : documentOf raw = .ok document) : document.Distinct := by
  cases raw with
  | arr items =>
    obtain rfl := Except.ok.inj h
    simpa using hraw
  | obj fields =>
    obtain rfl := Except.ok.inj h
    exact hraw
  | _ => cases h

/-- A breach that is reported is one of a value in the document. -/
theorem governs_of_load {raw : Json} {name : Option Text} {path : Text} {breach : Breach}
    (hraw : raw.Distinct) (h : load raw name = .error (.invalidArtifact path (.breach breach))) :
    ∃ document location shape part, documentOf raw = .ok document ∧
      Location.write location = path ∧ Governs document location shape part ∧
      shape.Breaks Shape.ofItem part breach := by
  rcases load_eq_error h with hplain | ⟨document, hdocument, hcheck⟩ |
    ⟨document, items, hreaches, hentries⟩
  · exact hplain.elim
  · have hdistinct := distinct_of_documentOf hraw hdocument
    obtain ⟨location, shape, part, hpath, hgoverns, hbreaks⟩ := check_eq_breach hdistinct hcheck
    exact ⟨document, location, shape, part, hdocument, hpath, .document hgoverns, hbreaks⟩
  obtain ⟨position, item, entries, hitem, -, hfail⟩ := loadEntries_eq_error hentries
  rw [Nat.zero_add] at hfail
  rcases loadEntry_eq_error hfail with hplain | ⟨hfault, -⟩ | ⟨kind, hkind, hcheck | ⟨-, hstops⟩⟩
  · exact hplain.elim
  · cases hfault
  · have hlist := (distinct_of_documentOf hraw hreaches.stands).field hreaches.abi
    have hdistinct := Json.distinct_arr.mp hlist item (List.mem_of_getElem? hitem)
    obtain ⟨location, shape, part, hpath, hgoverns, hbreaks⟩ := check_eq_breach hdistinct hcheck
    have hentry := Governs.entry hreaches.abi hitem (declares_of_kindOf hkind) hgoverns
    exact ⟨document, _, shape, part, hreaches.stands, hpath, hentry, hbreaks⟩
  · obtain ⟨key, params, index, -, -, ⟨param, text, -, -, hread⟩, -⟩ := hstops
    exact absurd hread not_breach_of_parse

/-- A refusal for a broken shape points at a real one. The path that it gives is the written form
of a location in the document that leads to a value, and that value breaks the shape that it has to
follow there, in the way that the refusal says. -/
theorem breach_located {raw : Json} {name : Option Text} {path : Text} {breach : Breach}
    (hraw : raw.Distinct) (h : load raw name = .error (.invalidArtifact path (.breach breach))) :
    ∃ document location shape part, documentOf raw = .ok document ∧
      Location.write location = path ∧ document.at? location = some part ∧
      Governs document location shape part ∧ shape.Breaks Shape.ofItem part breach ∧
      ¬ Fits part shape := by
  obtain ⟨document, location, shape, part, hdocument, hpath, hgoverns, hbreaks⟩ :=
    governs_of_load hraw h
  exact ⟨document, location, shape, part, hdocument, hpath, hgoverns.at?_eq, hgoverns, hbreaks,
    hbreaks.not_follows⟩

/-- A network whose address is no text: neither of the two forms of a network applies, and the
object comes closer. -/
theorem breach_located_address :
    ∃ raw document location shape part,
      load raw none = .error (.invalidArtifact "networks.1.address"
        (.breach (.wrongKind .null .text))) ∧
      documentOf raw = .ok document ∧ Location.write location = "networks.1.address" ∧
      document.at? location = some part ∧ Governs document location shape part ∧
      shape.Breaks Shape.ofItem part (.wrongKind .null .text) ∧ ¬ Fits part shape := by
  have hload : load (.obj [("abi", .arr []),
      ("networks", .obj [("1", .obj [("address", .null)])])]) none =
      .error (.invalidArtifact "networks.1.address" (.breach (.wrongKind .null .text))) := rfl
  have hdistinct : (Json.obj [("abi", .arr []),
      ("networks", .obj [("1", .obj [("address", .null)])])]).Distinct := by
    simp only [Json.distinct_obj, Json.distinct_arr, Json.distinct_null, List.forall_mem_cons,
      List.not_mem_nil, false_implies, implies_true, and_true]
    decide
  obtain ⟨document, location, shape, part, hlocated⟩ := breach_located hdistinct hload
  exact ⟨_, document, location, shape, part, hload, hlocated⟩

end AbiBindings.Artifact
