import AbiBindings.Proofs.Artifact.Broken
import AbiBindings.Proofs.Artifact.Refusal

/-!
What loading can come to. A value loads as an artifact or is refused, unless the refusal would have
to show an integer of too many digits; the places where that may happen are those at which loading
shows a value: the violations of the shape of the document, and the kind and the violations of the
shape of the first entry that does not load. A value that was read has no such integer.
-/

namespace AbiBindings.Artifact

open AbiType (DigitRunsFit)
open Outcome

/-- A refusal of the entry would show an integer of too many digits: in what stands for its kind, or
in what breaks the shape for its kind. -/
inductive EntryShowsLong (item : Json) : Prop
  | kind {word : Json} : kindOf item = .error word → word.HasLongInteger → EntryShowsLong item
  | shape {kind : EntryKind} {v : Violation} : kindOf item = .ok kind →
      v ∈ item.violations Shape.ofItem (Shape.ofEntry kind) → v.ShowsLong → EntryShowsLong item

/-- A refusal of the value would show an integer of too many digits: in what breaks the shape of
the document, or in the first entry that does not load. -/
inductive ShowsLong (raw : Json) (name : Option Text) : Prop
  | document {document : Json} {v : Violation} : documentOf raw = .ok document →
      v ∈ document.violations Shape.ofItem Shape.document → v.ShowsLong → ShowsLong raw name
  | entry {document item : Json} {items : List Json} {position : Nat} {entries : List Entry} :
      ReachesEntries raw name document items → items[position]? = some item →
      loadEntries 0 (items.take position) = .ok entries → EntryShowsLong item →
      ShowsLong raw name

/-- What can be read as the type of a parameter that fits is a text, so it can be shown. -/
theorem not_unwritable_of_stops {kind : EntryKind} {item : Json} {key : Text}
    {params : List Json} {place : Location} {start position : Nat}
    (hfits : Fits item (Shape.ofEntry kind)) (hturn : InTurn item kind key)
    (hparams : OptionalList item key params) :
    ¬ StopsAt params place start position .integerUnwritable := by
  rintro ⟨⟨param, source, hparam, hsource, hread⟩, -⟩
  have hfields := isParamItem_of_fits
    (fits_of_inTurn hturn hfits hparams param (List.mem_of_getElem? hparam))
  obtain ⟨text, htext⟩ := hfields.type
  obtain rfl := Option.some.inj (hsource.symm.trans htext)
  rcases AbiType.parse_eq_error hread with ⟨_, _, _, hfault, -⟩ | ⟨_, _, hfault, -⟩
  · cases hfault
  · cases hfault

theorem field?_of_kindOf {item word : Json} (h : kindOf item = .error word) :
    item.field? "type" = some word := by
  rw [kindOf] at h
  split at h
  · cases h
  · next hfield =>
    split at h
    · cases h
    · rw [hfield, Except.error.inj h]
  · next hfield => rw [hfield, Except.error.inj h]

theorem loadEntry_eq_unwritable {item : Json} {index : Nat} :
    loadEntry item index = .error .integerUnwritable ↔ EntryShowsLong item := by
  constructor
  · intro h
    rcases loadEntry_eq_error h with hplain | ⟨-, word, hkind, hlong⟩ |
      ⟨kind, hkind, hcheck | ⟨hfits, key, params, position, hturn, hparams, hstops⟩⟩
    · exact hplain.elim
    · exact .kind hkind hlong
    · obtain ⟨v, hv, hlong⟩ := check_eq_unwritable.mp hcheck
      exact .shape hkind hv hlong
    -- the entry fits its shape, so what fails in a parameter is the reading of a text
    · exact absurd hstops (not_unwritable_of_stops hfits hturn hparams)
  · intro h
    cases h with
    | @kind word hkind hlong =>
      rw [← Json.display?_eq_none] at hlong
      simp [loadEntry, hkind, hlong]
    | shape hkind hv hlong =>
      simp only [loadEntry, hkind, check_eq_unwritable.mpr ⟨_, hv, hlong⟩, error_bind]

theorem load_eq_unwritable {raw : Json} {name : Option Text} :
    load raw name = .error .integerUnwritable ↔ ShowsLong raw name := by
  constructor
  · intro h
    rcases load_eq_error h with hplain | ⟨document, hdocument, hcheck⟩ |
      ⟨document, items, hreaches, hentries⟩
    · exact hplain.elim
    · obtain ⟨v, hv, hlong⟩ := check_eq_unwritable.mp hcheck
      exact .document hdocument hv hlong
    · obtain ⟨position, item, entries, hitem, hearlier, hfail⟩ := loadEntries_eq_error hentries
      exact .entry hreaches hitem hearlier (loadEntry_eq_unwritable.mp hfail)
  · intro h
    cases h with
    | document hdocument hv hlong =>
      exact load_of_document hdocument (check_eq_unwritable.mpr ⟨_, hv, hlong⟩)
    | entry hreaches hitem hearlier hlong =>
      exact hreaches.load_eq
        (loadEntries_of_stop hitem hearlier (loadEntry_eq_unwritable.mpr hlong))

theorem EntryShowsLong.hasLongInteger {item : Json} (hitem : item.Distinct)
    (h : EntryShowsLong item) : item.HasLongInteger := by
  cases h with
  | kind hkind hlong => exact .field (field?_of_kindOf hkind) hlong
  | shape _ hv hlong => exact (Json.real_of_mem_violations _ hitem _ _ hv).hasLongInteger hlong

theorem hasLongInteger_of_documentOf {raw document : Json} (h : documentOf raw = .ok document)
    (hlong : document.HasLongInteger) : raw.HasLongInteger := by
  cases raw with
  | arr items =>
    obtain rfl := Except.ok.inj h
    simpa [Json.hasLongInteger_obj] using hlong
  | obj fields =>
    obtain rfl := Except.ok.inj h
    exact hlong
  | _ => cases h

/-- What a refusal would show stands in the value. -/
theorem ShowsLong.hasLongInteger {raw : Json} {name : Option Text} (hraw : raw.Distinct)
    (h : ShowsLong raw name) : raw.HasLongInteger := by
  cases h with
  | document hdocument hv hlong =>
    have hdistinct := distinct_of_documentOf hraw hdocument
    have hreal := Json.real_of_mem_violations _ hdistinct _ _ hv
    exact hasLongInteger_of_documentOf hdocument (hreal.hasLongInteger hlong)
  | entry hreaches hitem _ hlong =>
    have hmem := List.mem_of_getElem? hitem
    have hlist := (distinct_of_documentOf hraw hreaches.stands).field hreaches.abi
    have hitem := hlong.hasLongInteger (Json.distinct_arr.mp hlist _ hmem)
    apply hasLongInteger_of_documentOf hreaches.stands
    exact .field hreaches.abi (Json.hasLongInteger_arr.mpr ⟨_, hmem, hitem⟩)

def LoadsOrRefuses (raw : Json) (name : Option Text) : Prop :=
  (∃ artifact, load raw name = .ok artifact) ∨
    ∃ fault, load raw name = .error fault ∧ fault.IsRefusal

end AbiBindings.Artifact
