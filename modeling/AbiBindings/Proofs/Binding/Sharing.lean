import AbiBindings.Binding
import AbiBindings.Proofs.AbiType.Acceptance

/-!
Bindings shared through a memo. A memo that starts empty and binds types one after the other holds
every shape that stands in one of them, once, with the binding that the shape has on its own. A
shape that is met again is therefore found, and the memo stays as it is; entries are only ever
added at the end, so what is kept for a shape never moves or changes.
-/

namespace AbiBindings

open Outcome

namespace AbiType

/-- A shape stands in a type: it is the type itself, or stands in a part of it. The names of
components belong to a shape. -/
inductive Within (shape : AbiType) : AbiType → Prop
  | self : Within shape shape
  | item {length : Option Int} {item : AbiType} : Within shape item →
      Within shape (array length item)
  | component {part : Text × AbiType} {parts : List (Text × AbiType)} : part ∈ parts →
      Within shape part.2 → Within shape (tuple parts)

theorem Within.trans {s t u : AbiType} (h : s.Within t) (h' : t.Within u) : s.Within u := by
  induction h' with
  | self => exact h
  | item _ ih => exact .item ih
  | component hpart _ ih => exact .component hpart ih

theorem sizeOf_component_lt {part : Text × AbiType} {parts : List (Text × AbiType)}
    (h : part ∈ parts) : sizeOf part.2 < sizeOf (tuple parts) := by
  have hpart := List.sizeOf_lt_of_mem h
  obtain ⟨name, type⟩ := part
  simp only [Prod.mk.sizeOf_spec] at hpart
  simp only [tuple.sizeOf_spec]
  omega

theorem Within.sizeOf_le {s t : AbiType} (h : s.Within t) : sizeOf s ≤ sizeOf t := by
  induction h with
  | self => exact Nat.le_refl _
  | item _ ih =>
    simp only [array.sizeOf_spec]
    omega
  | component hpart _ ih => exact Nat.le_of_lt (Nat.lt_of_le_of_lt ih (sizeOf_component_lt hpart))

/-- No type stands in its own items. -/
theorem not_within_item {length : Option Int} {item : AbiType} :
    ¬ (array length item).Within item := by
  intro h
  have hle := h.sizeOf_le
  simp only [array.sizeOf_spec] at hle
  omega

/-- No type stands in its own components. -/
theorem not_within_component {part : Text × AbiType} {parts : List (Text × AbiType)}
    (h : part ∈ parts) : ¬ (tuple parts).Within part.2 :=
  fun hwithin => Nat.not_le_of_lt (sizeOf_component_lt h) hwithin.sizeOf_le

theorem within_elementary {shape : AbiType} {kind : Elementary} :
    shape.Within (elementary kind) ↔ shape = elementary kind := by
  constructor
  · rintro ⟨⟩
    rfl
  · rintro rfl
    exact .self

theorem within_array {shape item : AbiType} {length : Option Int} :
    shape.Within (array length item) ↔ shape = array length item ∨ shape.Within item := by
  constructor
  · intro h
    cases h with
    | self => exact .inl rfl
    | item h => exact .inr h
  · rintro (rfl | h)
    · exact .self
    · exact .item h

theorem within_tuple {shape : AbiType} {parts : List (Text × AbiType)} :
    shape.Within (tuple parts) ↔
      shape = tuple parts ∨ ∃ part ∈ parts, shape.Within part.2 := by
  constructor
  · intro h
    cases h with
    | self => exact .inl rfl
    | component hpart h => exact .inr ⟨_, hpart, h⟩
  · rintro (rfl | ⟨part, hpart, h⟩)
    · exact .self
    · exact .component hpart h

end AbiType

namespace Binding

theorem ofComponents_eq_ok {parts : List (Text × AbiType)} {bindings : List Binding} :
    ofComponents parts = .ok bindings ↔
      List.Forall₂ (fun part binding => ofType part.2 = .ok binding) parts bindings := by
  induction parts generalizing bindings with
  | nil =>
    rw [ofComponents, Except.ok.injEq, List.forall₂_nil_left_iff]
    exact eq_comm
  | cons part rest ih =>
    obtain ⟨name, type⟩ := part
    simp only [ofComponents, bind_eq_ok, pure_eq_ok, Except.ok.injEq, List.forall₂_cons_left_iff,
      ih]
    constructor
    · rintro ⟨first, hfirst, others, hothers, rfl⟩
      exact ⟨first, others, hfirst, hothers, rfl⟩
    · rintro ⟨first, others, hfirst, hothers, rfl⟩
      exact ⟨first, hfirst, others, hothers, rfl⟩

theorem exists_ofElementary {kind : Elementary} (h : kind.Supported) :
    ∃ binding, ofElementary kind = .ok binding := by
  cases kind with
  | foreign => cases h
  | absent => cases h
  | _ => exact ⟨_, rfl⟩

/-- Every type that reading can give has a binding. -/
theorem exists_ofType {type : AbiType} (h : type.Supported) :
    ∃ binding, ofType type = .ok binding := by
  induction type using AbiType.induct with
  | elementary kind =>
    rw [ofType]
    rw [AbiType.Supported] at h
    exact exists_ofElementary h
  | array length item ih =>
    have hitem : item.Supported := by
      cases length with
      | none => rwa [AbiType.Supported] at h
      | some n =>
        rw [AbiType.Supported] at h
        exact h.2
    obtain ⟨binding, hbinding⟩ := ih hitem
    exact ⟨ofArray length binding, by rw [ofType, hbinding]; rfl⟩
  | tuple parts ih =>
    have hparts := AbiType.supported_tuple.mp h
    obtain ⟨bindings, hbindings⟩ : ∃ bindings, ofComponents parts = .ok bindings := by
      clear h
      induction parts with
      | nil => exact ⟨[], rfl⟩
      | cons part rest ihrest =>
        rw [List.forall_mem_cons] at hparts ih
        obtain ⟨first, hfirst⟩ := ih.1 hparts.1
        obtain ⟨others, hothers⟩ := ihrest ih.2 hparts.2
        exact ⟨first :: others,
          ofComponents_eq_ok.mpr (.cons hfirst (ofComponents_eq_ok.mp hothers))⟩
    exact ⟨ofTuple bindings, by rw [ofType, hbindings]; rfl⟩

end Binding

namespace Memo

def shapes (memo : Memo) : List AbiType := memo.map Prod.fst

/-- The binding that a type gets from a memo of its own. -/
def IsFresh (type : AbiType) (binding : Binding) : Prop :=
  ∃ own, bind [] type = .ok (binding, own)

structure Covers (memo : Memo) (types : List AbiType) : Prop where
  nodup : memo.shapes.Nodup
  mem_shapes : ∀ shape, shape ∈ memo.shapes ↔ ∃ type ∈ types, shape.Within type
  binding : ∀ shape binding, (shape, binding) ∈ memo → Binding.ofType shape = .ok binding

theorem covers_nil : Covers [] [] where
  nodup := List.nodup_nil
  mem_shapes := by simp [shapes]
  binding := by simp

theorem find?_eq_none {memo : Memo} {type : AbiType} :
    memo.find? type = none ↔ type ∉ memo.shapes := by
  simp only [find?, shapes, List.lookup_eq_none_iff, List.mem_map, not_exists, not_and, bne_iff_ne]
  exact forall₂_congr fun entry _ => ne_comm

theorem mem_of_find? {memo : Memo} {type : AbiType} {binding : Binding}
    (h : memo.find? type = some binding) : (type, binding) ∈ memo := by
  obtain ⟨before, after, rfl, -⟩ := List.lookup_eq_some_iff.mp h
  simp

/-- A shape that has an entry is found, with its binding. -/
theorem Covers.find? {memo : Memo} {types : List AbiType} (h : memo.Covers types) {type : AbiType}
    {binding : Binding} (hmem : type ∈ memo.shapes) (hbinding : Binding.ofType type = .ok binding) :
    memo.find? type = some binding := by
  cases hfound : memo.find? type with
  | none => exact absurd hmem (find?_eq_none.mp hfound)
  | some kept =>
    have hkept := h.binding type kept (mem_of_find? hfound)
    rw [hbinding] at hkept
    rw [Except.ok.inj hkept]

/-- What has an entry is not bound anew. -/
theorem bind_of_find? {memo : Memo} {type : AbiType} {binding : Binding}
    (h : memo.find? type = some binding) : memo.bind type = .ok (binding, memo) := by
  cases type <;> rw [bind, h]

/-- A type that stands in one of the types adds nothing to what the memo is to hold. -/
theorem Covers.again {memo : Memo} {types : List AbiType} (h : memo.Covers types) {type : AbiType}
    (hmem : type ∈ memo.shapes) : memo.Covers (types ++ [type]) where
  nodup := h.nodup
  mem_shapes := by
    intro shape
    obtain ⟨outer, houter, hwithin⟩ := (h.mem_shapes type).mp hmem
    simp only [List.mem_append, List.mem_singleton]
    rw [h.mem_shapes]
    constructor
    · rintro ⟨t, ht, hshape⟩
      exact ⟨t, .inl ht, hshape⟩
    · rintro ⟨t, ht | rfl, hshape⟩
      · exact ⟨t, ht, hshape⟩
      · exact ⟨outer, houter, hshape.trans hwithin⟩
  binding := h.binding

/-- After the parts of a type, the type itself is entered. -/
theorem Covers.enter {memo : Memo} {types parts : List AbiType} {type : AbiType} {binding : Binding}
    (h : memo.Covers (types ++ parts)) (hnew : ¬ ∃ t ∈ types ++ parts, type.Within t)
    (hwithin : ∀ shape : AbiType,
      shape.Within type ↔ shape = type ∨ ∃ part ∈ parts, shape.Within part)
    (hbinding : Binding.ofType type = .ok binding) :
    Covers (memo ++ [(type, binding)]) (types ++ [type]) where
  nodup := by
    have htype : type ∉ memo.shapes := fun hmem => hnew ((h.mem_shapes type).mp hmem)
    rw [shapes, List.map_append, List.nodup_append]
    refine ⟨h.nodup, by simp, ?_⟩
    rintro shape hshape _ hlast rfl
    obtain rfl := List.mem_singleton.mp hlast
    exact htype hshape
  mem_shapes := by
    intro shape
    have hshapes : shape ∈ shapes (memo ++ [(type, binding)]) ↔
        shape ∈ memo.shapes ∨ shape = type := by simp [shapes]
    rw [hshapes, h.mem_shapes]
    simp only [List.mem_append, List.mem_singleton]
    constructor
    · rintro (⟨t, ht | ht, hshape⟩ | rfl)
      · exact ⟨t, .inl ht, hshape⟩
      · exact ⟨type, .inr rfl, (hwithin shape).mpr (.inr ⟨t, ht, hshape⟩)⟩
      · exact ⟨shape, .inr rfl, .self⟩
    · rintro ⟨t, ht | rfl, hshape⟩
      · exact .inl ⟨t, .inl ht, hshape⟩
      · rcases (hwithin shape).mp hshape with rfl | ⟨part, hpart, hshape⟩
        · exact .inr rfl
        · exact .inl ⟨part, .inr hpart, hshape⟩
  binding := by
    intro shape kept hmem
    rcases List.mem_append.mp hmem with hmem | hmem
    · exact h.binding shape kept hmem
    · obtain ⟨rfl, rfl⟩ := Prod.mk.inj (List.mem_singleton.mp hmem)
      exact hbinding

/-- Binding a type gives the binding it has on its own and adds to the memo what stands in it. -/
def BindsWell (type : AbiType) : Prop :=
  ∀ (memo : Memo) (types : List AbiType) (binding : Binding), memo.Covers types →
    Binding.ofType type = .ok binding →
      ∃ more, memo.bind type = .ok (binding, memo ++ more) ∧ (memo ++ more).Covers (types ++ [type])

/-- It is enough to look at types without an entry. -/
theorem bindsWell_of_miss {type : AbiType}
    (hmiss : ∀ (memo : Memo) (types : List AbiType) (binding : Binding), memo.Covers types →
      type ∉ memo.shapes → Binding.ofType type = .ok binding →
        ∃ more, memo.bind type = .ok (binding, memo ++ more) ∧
          (memo ++ more).Covers (types ++ [type])) : BindsWell type := by
  intro memo types binding hcovers hbinding
  by_cases hmem : type ∈ memo.shapes
  · refine ⟨[], ?_, ?_⟩
    · rw [List.append_nil]
      exact bind_of_find? (hcovers.find? hmem hbinding)
    · rw [List.append_nil]
      exact hcovers.again hmem
  · exact hmiss memo types binding hcovers hmem hbinding

theorem bindComponents_covers {parts : List (Text × AbiType)}
    (hparts : ∀ part ∈ parts, BindsWell part.2) {memo : Memo} {types : List AbiType}
    {bindings : List Binding} (hcovers : memo.Covers types)
    (hbindings : Binding.ofComponents parts = .ok bindings) :
    ∃ more, bindComponents memo parts = .ok (bindings, memo ++ more) ∧
      (memo ++ more).Covers (types ++ AbiType.typesOf parts) := by
  induction parts generalizing memo types bindings with
  | nil =>
    cases hbindings
    exact ⟨[], by simp [bindComponents], by simpa [AbiType.typesOf] using hcovers⟩
  | cons part rest ih =>
    obtain ⟨name, type⟩ := part
    obtain ⟨first, others, hfirst, hothers, rfl⟩ :=
      List.forall₂_cons_left_iff.mp (Binding.ofComponents_eq_ok.mp hbindings)
    rw [List.forall_mem_cons] at hparts
    obtain ⟨added, hbind, hadded⟩ := hparts.1 memo types first hcovers hfirst
    obtain ⟨more, hrest, hmore⟩ := ih hparts.2 hadded (Binding.ofComponents_eq_ok.mpr hothers)
    refine ⟨added ++ more, ?_, ?_⟩
    · simp [bindComponents, hbind, hrest]
    · simpa [AbiType.typesOf] using hmore

/-- Every type is bound well: by induction on the type, whose parts are bound before it. -/
theorem bindsWell (type : AbiType) : BindsWell type := by
  induction type using AbiType.induct with
  | elementary kind =>
    refine bindsWell_of_miss fun memo types binding hcovers hnew hbinding => ?_
    have hnone := find?_eq_none.mpr hnew
    have hkind : Binding.ofElementary kind = .ok binding := by rwa [Binding.ofType] at hbinding
    refine ⟨[(.elementary kind, binding)], by rw [bind, hnone]; simp [hkind], ?_⟩
    rw [hcovers.mem_shapes] at hnew
    have hcovers' : memo.Covers (types ++ []) := by simpa using hcovers
    refine hcovers'.enter (by simpa using hnew) ?_ hbinding
    simp [AbiType.within_elementary]
  | array length item ih =>
    refine bindsWell_of_miss fun memo types binding hcovers hnew hbinding => ?_
    have hnone := find?_eq_none.mpr hnew
    rw [Binding.ofType] at hbinding
    obtain ⟨inner, hinner, hdone⟩ := bind_eq_ok.mp hbinding
    obtain rfl := Except.ok.inj hdone
    obtain ⟨more, hbind, hmore⟩ := ih memo types inner hcovers hinner
    refine ⟨more ++ [(.array length item, Binding.ofArray length inner)], ?_, ?_⟩
    · rw [bind, hnone]
      simp [hbind]
    · rw [← List.append_assoc]
      rw [hcovers.mem_shapes] at hnew
      refine hmore.enter ?_ ?_ (by rw [Binding.ofType]; exact hbinding)
      · rintro ⟨t, ht, hwithin⟩
        rcases List.mem_append.mp ht with ht | ht
        · exact hnew ⟨t, ht, hwithin⟩
        · obtain rfl := List.mem_singleton.mp ht
          exact AbiType.not_within_item hwithin
      · simp [AbiType.within_array]
  | tuple parts ih =>
    refine bindsWell_of_miss fun memo types binding hcovers hnew hbinding => ?_
    have hnone := find?_eq_none.mpr hnew
    rw [Binding.ofType] at hbinding
    obtain ⟨inner, hinner, hdone⟩ := bind_eq_ok.mp hbinding
    obtain rfl := Except.ok.inj hdone
    obtain ⟨more, hbind, hmore⟩ := bindComponents_covers ih hcovers hinner
    refine ⟨more ++ [(.tuple parts, Binding.ofTuple inner)], ?_, ?_⟩
    · rw [bind, hnone]
      simp [hbind]
    · rw [← List.append_assoc]
      rw [hcovers.mem_shapes] at hnew
      refine hmore.enter ?_ ?_ (by rw [Binding.ofType]; exact hbinding)
      · rintro ⟨t, ht, hwithin⟩
        rcases List.mem_append.mp ht with ht | ht
        · exact hnew ⟨t, ht, hwithin⟩
        · obtain ⟨part, hpart, rfl⟩ := List.mem_map.mp ht
          exact AbiType.not_within_component hpart hwithin
      · intro shape
        rw [AbiType.within_tuple]
        simp only [AbiType.typesOf, List.mem_map, exists_exists_and_eq_and]

/-- The binding of a type is the one it gets from a memo of its own. -/
theorem isFresh_of_ofType {type : AbiType} {binding : Binding}
    (h : Binding.ofType type = .ok binding) : IsFresh type binding := by
  obtain ⟨own, hbind, -⟩ := bindsWell type [] [] binding covers_nil h
  exact ⟨own, hbind⟩

/-- The memo after some types have been bound with it, one after the other; it starts empty. -/
def ofTypes (types : List AbiType) : Except Fault Memo :=
  types.foldlM (fun memo type => do
    let (_, memo) ← memo.bind type
    return memo) []

theorem ofTypes_append {types : List AbiType} {type : AbiType} {memo after : Memo}
    {binding : Binding} (h : ofTypes types = .ok memo)
    (hbind : memo.bind type = .ok (binding, after)) : ofTypes (types ++ [type]) = .ok after := by
  rw [ofTypes, List.foldlM_append, ← ofTypes, h]
  simp [hbind]

/-- A run over types that have bindings ends, and its memo holds what stands in them. -/
theorem exists_ofTypes {types : List AbiType} (h : ∀ type ∈ types, type.Supported) :
    ∃ memo, ofTypes types = .ok memo ∧ memo.Covers types := by
  induction types using List.reverseRecOn with
  | nil => exact ⟨[], rfl, covers_nil⟩
  | append_singleton types type ih =>
    obtain ⟨hbefore, htype⟩ := List.forall_mem_append.mp h
    obtain ⟨memo, hmemo, hcovers⟩ := ih hbefore
    obtain ⟨binding, hbinding⟩ := Binding.exists_ofType (htype type List.mem_cons_self)
    obtain ⟨more, hbind, hmore⟩ := bindsWell type memo types binding hcovers hbinding
    exact ⟨memo ++ more, ofTypes_append hmemo hbind, hmore⟩

/-- Binding with a shared memo is as binding with a memo of one's own, and nothing is bound twice.
Whatever types have been bound, the next one gets the binding that it gets from an empty memo.
Afterwards the memo has one entry for every shape that stands in one of the types, and no other,
each with the binding that the shape gets from an empty memo. What was in the memo stays where it
is; and a type that stood in an earlier one is only looked up, so that the entry kept for it is
what is returned. -/
theorem bind_after_run {types : List AbiType} {type : AbiType}
    (hread : ∀ t ∈ types ++ [type],
      ∃ text components path, AbiType.parse text components path = .ok t) :
    ∃ memo binding after, ofTypes types = .ok memo ∧ memo.bind type = .ok (binding, after) ∧
      ofTypes (types ++ [type]) = .ok after ∧
      IsFresh type binding ∧
      after.shapes.Nodup ∧
      (∀ shape, shape ∈ after.shapes ↔ ∃ t ∈ types ++ [type], shape.Within t) ∧
      (∀ shape kept, (shape, kept) ∈ after → IsFresh shape kept) ∧
      memo <+: after ∧
      ((∃ t ∈ types, type.Within t) → after = memo ∧ memo.find? type = some binding) := by
  have hsupported : ∀ t ∈ types ++ [type], t.Supported := by
    intro t ht
    obtain ⟨text, components, path, hparse⟩ := hread t ht
    exact AbiType.supported_of_parse hparse
  obtain ⟨hbefore, htype⟩ := List.forall_mem_append.mp hsupported
  obtain ⟨memo, hmemo, hcovers⟩ := exists_ofTypes hbefore
  obtain ⟨binding, hbinding⟩ := Binding.exists_ofType (htype type List.mem_cons_self)
  obtain ⟨more, hbind, hmore⟩ := bindsWell type memo types binding hcovers hbinding
  refine ⟨memo, binding, memo ++ more, hmemo, hbind, ofTypes_append hmemo hbind,
    isFresh_of_ofType hbinding, hmore.nodup, hmore.mem_shapes, ?_, List.prefix_append _ _, ?_⟩
  · intro shape kept hmem
    exact isFresh_of_ofType (hmore.binding shape kept hmem)
  · intro hwithin
    have hfound := hcovers.find? ((hcovers.mem_shapes type).mpr hwithin) hbinding
    rw [bind_of_find? hfound] at hbind
    exact ⟨(Prod.mk.inj (Except.ok.inj hbind)).2.symm, hfound⟩

/-- A type that stands only inside an earlier struct is looked up, and the memo keeps its three
entries. -/
theorem bind_after_run_struct :
    ∃ memo binding, ofTypes [.tuple [("a", .array none (.elementary .string))]] = .ok memo ∧
      memo.bind (.array none (.elementary .string)) = .ok (binding, memo) ∧
      memo.shapes = [.elementary .string, .array none (.elementary .string),
        .tuple [("a", .array none (.elementary .string))]] ∧
      IsFresh (.array none (.elementary .string)) binding := by
  have hstruct : AbiType.parse (.str "tuple")
      (.arr [.obj [("name", .str "a"), ("type", .str "string[]")]]) none =
        .ok (.tuple [("a", .array none (.elementary .string))]) := rfl
  have harray : AbiType.parse (.str "string[]") .null none =
      .ok (.array none (.elementary .string)) := rfl
  have hread : ∀ t ∈ [AbiType.tuple [("a", .array none (.elementary .string))]] ++
      [.array none (.elementary .string)],
      ∃ text components path, AbiType.parse text components path = .ok t := by
    simp only [List.singleton_append, List.forall_mem_cons]
    exact ⟨⟨_, _, _, hstruct⟩, ⟨_, _, _, harray⟩, by simp⟩
  obtain ⟨memo, binding, after, hmemo, hbind, -, hfresh, -, -, -, -, hagain⟩ :=
    bind_after_run hread
  obtain ⟨rfl, -⟩ := hagain ⟨_, List.mem_cons_self, .component List.mem_cons_self .self⟩
  have hshapes : ofTypes [.tuple [("a", .array none (.elementary .string))]] =
      .ok [(.elementary .string, ⟨.plain "Text", "string", []⟩),
        (.array none (.elementary .string), .ofArray none ⟨.plain "Text", "string", []⟩),
        (.tuple [("a", .array none (.elementary .string))],
          .ofTuple [.ofArray none ⟨.plain "Text", "string", []⟩])] := rfl
  obtain rfl := Except.ok.inj (hmemo.symm.trans hshapes)
  exact ⟨_, binding, hmemo, hbind, rfl, hfresh⟩

end Memo

end AbiBindings
