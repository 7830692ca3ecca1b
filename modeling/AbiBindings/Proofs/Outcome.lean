import Mathlib.Data.List.Forall2

/-!
Computations that may fail, step by step: a sequence of two gives a result exactly when the first
gives one from which the second gives it, and a list of them does when each gives its own.
-/

namespace AbiBindings.Outcome

variable {ε ε' α β : Type}

@[simp] theorem ok_bind (a : α) (f : α → Except ε β) : (Except.ok a >>= f) = f a := rfl

@[simp] theorem error_bind (e : ε) (f : α → Except ε β) :
    ((Except.error e : Except ε α) >>= f) = .error e := rfl

@[simp] theorem pure_eq_ok (a : α) : (pure a : Except ε α) = .ok a := rfl

theorem bind_eq_ok {x : Except ε α} {f : α → Except ε β} {b : β} :
    (x >>= f) = .ok b ↔ ∃ a, x = .ok a ∧ f a = .ok b := by
  cases x with
  | error e => simp
  | ok a => simp

theorem toOption_eq_some {x : Except ε α} {a : α} : x.toOption = some a ↔ x = .ok a := by
  cases x with
  | error e => simp [Except.toOption]
  | ok a => simp [Except.toOption]

theorem map_eq_ok {x : Except ε α} {f : α → β} {b : β} :
    x.map f = .ok b ↔ ∃ a, x = .ok a ∧ f a = b := by
  cases x with
  | error e => simp [Except.map]
  | ok a => simp [Except.map]

theorem map_congr {x : Except ε α} {f g : α → β} (h : ∀ a, x = .ok a → f a = g a) :
    x.map f = x.map g := by
  cases x with
  | error e => rfl
  | ok a => exact congrArg Except.ok (h a rfl)

theorem mapError_eq_ok {x : Except ε α} {f : ε → ε'} {a : α} :
    x.mapError f = .ok a ↔ x = .ok a := by
  cases x with
  | error e => simp [Except.mapError]
  | ok a => simp [Except.mapError]

theorem mapError_eq_error {x : Except ε α} {f : ε → ε'} {e : ε'} :
    x.mapError f = .error e ↔ ∃ e', x = .error e' ∧ f e' = e := by
  cases x with
  | error e' => simp [Except.mapError]
  | ok a => simp [Except.mapError]

/-- What maps the results of the second step maps those of both. -/
theorem bind_eq_map_bind {γ : Type} {x : Except ε α} {f : α → Except ε γ} {g : α → Except ε β}
    {k : β → γ} (h : ∀ a, f a = (g a).map k) : (x >>= f) = (x >>= g).map k := by
  cases x with
  | error e => rfl
  | ok a => exact h a

theorem bind_eq_error {x : Except ε α} {f : α → Except ε β} {e : ε} :
    (x >>= f) = .error e ↔ x = .error e ∨ ∃ a, x = .ok a ∧ f a = .error e := by
  cases x with
  | error e' => simp
  | ok a => simp

/-- Whatever stands in the second list is related to something in the first. -/
theorem exists_of_forall₂ {R : α → β → Prop} {as : List α} {bs : List β}
    (h : List.Forall₂ R as bs) {b : β} (hb : b ∈ bs) : ∃ a ∈ as, R a b := by
  induction h with
  | nil => exact absurd hb List.not_mem_nil
  | @cons a b' as bs hab _ ih =>
    rcases List.mem_cons.mp hb with rfl | hb
    · exact ⟨a, List.mem_cons_self, hab⟩
    · obtain ⟨a', ha', hrel⟩ := ih hb
      exact ⟨a', List.mem_cons_of_mem a ha', hrel⟩

/-- Checks one after the other succeed when each does. -/
theorem forM_eq_ok {f : α → Except ε Unit} {as : List α} :
    as.forM f = .ok () ↔ ∀ a ∈ as, f a = .ok () := by
  induction as with
  | nil => simp [List.forM]
  | cons a rest ih =>
    rw [List.forM, bind_eq_ok, List.forall_mem_cons, ← ih]
    constructor
    · rintro ⟨⟨⟩, hfirst, hrest⟩
      exact ⟨hfirst, hrest⟩
    · rintro ⟨hfirst, hrest⟩
      exact ⟨(), hfirst, hrest⟩

/-- Checks one after the other fail with the first that fails. -/
theorem forM_eq_error {f : α → Except ε Unit} {as : List α} {e : ε} :
    as.forM f = .error e ↔ ∃ before a after, as = before ++ a :: after ∧
      (∀ b ∈ before, f b = .ok ()) ∧ f a = .error e := by
  induction as with
  | nil => simp [List.forM]
  | cons a rest ih =>
    rw [List.forM, bind_eq_error]
    constructor
    · rintro (hfirst | ⟨⟨⟩, hfirst, hrest⟩)
      · exact ⟨[], a, rest, rfl, by simp, hfirst⟩
      · obtain ⟨before, b, after, rfl, hbefore, hb⟩ := ih.mp hrest
        refine ⟨a :: before, b, after, rfl, ?_, hb⟩
        intro c hc
        rcases List.mem_cons.mp hc with rfl | hc
        · exact hfirst
        · exact hbefore c hc
    · rintro ⟨before, b, after, heq, hbefore, hb⟩
      cases before with
      | nil =>
        obtain ⟨rfl, rfl⟩ := List.cons.inj heq
        exact .inl hb
      | cons c before =>
        obtain ⟨rfl, rfl⟩ := List.cons.inj heq
        have hothers : ∀ d ∈ before, f d = .ok () := fun d hd =>
          hbefore d (List.mem_cons_of_mem a hd)
        exact .inr ⟨(), hbefore a List.mem_cons_self,
          ih.mpr ⟨before, b, after, rfl, hothers, hb⟩⟩

/-- If a list of computations fails, one of them does. -/
theorem exists_of_mapM_eq_error {f : α → Except ε β} {as : List α} {e : ε}
    (h : as.mapM f = .error e) : ∃ a ∈ as, f a = .error e := by
  induction as with
  | nil => cases h
  | cons a rest ih =>
    rw [List.mapM_cons, bind_eq_error] at h
    rcases h with hfirst | ⟨b, -, hothers⟩
    · exact ⟨a, List.mem_cons_self, hfirst⟩
    · rcases bind_eq_error.mp hothers with hrest | ⟨bs, -, hdone⟩
      · obtain ⟨c, hc, hfail⟩ := ih hrest
        exact ⟨c, List.mem_cons_of_mem a hc, hfail⟩
      · cases hdone

/-- A list of computations gives the results that each gives. -/
theorem mapM_eq_ok {f : α → Except ε β} {as : List α} {bs : List β} :
    as.mapM f = .ok bs ↔ List.Forall₂ (fun a b => f a = .ok b) as bs := by
  induction as generalizing bs with
  | nil =>
    rw [List.mapM_nil, pure_eq_ok, Except.ok.injEq, List.forall₂_nil_left_iff]
    exact eq_comm
  | cons a rest ih =>
    rw [List.mapM_cons, bind_eq_ok, List.forall₂_cons_left_iff]
    constructor
    · rintro ⟨b, hfirst, hothers⟩
      obtain ⟨others, hrest, heq⟩ := bind_eq_ok.mp hothers
      exact ⟨b, others, hfirst, ih.mp hrest, (Except.ok.inj heq).symm⟩
    · rintro ⟨b, others, hfirst, hrest, rfl⟩
      exact ⟨b, hfirst, bind_eq_ok.mpr ⟨others, ih.mpr hrest, rfl⟩⟩

/-- A list of computations gives results if each gives one. -/
theorem exists_mapM_eq_ok {f : α → Except ε β} {as : List α} (h : ∀ a ∈ as, ∃ b, f a = .ok b) :
    ∃ bs, as.mapM f = .ok bs := by
  cases hmap : as.mapM f with
  | ok bs => exact ⟨bs, rfl⟩
  | error e =>
    obtain ⟨a, ha, hfail⟩ := exists_of_mapM_eq_error hmap
    obtain ⟨b, hb⟩ := h a ha
    rw [hb] at hfail
    cases hfail

/-- What the results keep of the inputs can be read off them. -/
theorem map_of_mapM_eq_ok {f : α → Except ε β} {g : β → α}
    (hg : ∀ a b, f a = .ok b → g b = a) {as : List α} {bs : List β}
    (h : as.mapM f = .ok bs) : bs.map g = as := by
  have hmap : List.Forall₂ (· = ·) as (bs.map g) := by
    rw [List.forall₂_map_right_iff]
    exact (mapM_eq_ok.mp h).imp fun a b hab => (hg a b hab).symm
  rw [List.forall₂_eq_eq_eq] at hmap
  exact hmap.symm

/-- If the computation fails, then with something of which the predicate holds. -/
def FailsOnly (P : ε → Prop) (x : Except ε α) : Prop := ∀ e, x = .error e → P e

section

variable {P : ε → Prop}

theorem failsOnly_ok (a : α) : FailsOnly P (.ok a) := by
  intro e h
  cases h

theorem failsOnly_error {e : ε} (he : P e) : FailsOnly P (.error e : Except ε α) := by
  intro e' h
  cases h
  exact he

theorem FailsOnly.bind {x : Except ε α} {f : α → Except ε β} (hx : FailsOnly P x)
    (hf : ∀ a, x = .ok a → FailsOnly P (f a)) : FailsOnly P (x >>= f) := by
  intro e h
  rcases bind_eq_error.mp h with h | ⟨a, ha, h⟩
  · exact hx e h
  · exact hf a ha e h

theorem failsOnly_forM {f : α → Except ε Unit} {as : List α}
    (hf : ∀ a ∈ as, FailsOnly P (f a)) : FailsOnly P (as.forM f) := by
  intro e h
  obtain ⟨before, a, after, rfl, -, ha⟩ := forM_eq_error.mp h
  exact hf a (List.mem_append_right before List.mem_cons_self) e ha

end

/-- If the items from which something can be picked are all the same, what is picked from a list is
what such an item in it holds. -/
theorem findSome?_eq_some_iff_mem {as : List α} {pick : α → Option β} {make : β → α}
    (hpick : ∀ a b, pick a = some b ↔ a = make b)
    (hsole : ∀ b b', make b ∈ as → make b' ∈ as → make b = make b') {b : β} :
    as.findSome? pick = some b ↔ make b ∈ as := by
  constructor
  · intro hfound
    obtain ⟨a, ha, hb⟩ := List.exists_of_findSome?_eq_some hfound
    exact (hpick a b).mp hb ▸ ha
  · intro hmem
    have hsome : (as.findSome? pick).isSome := by
      rw [List.findSome?_isSome_iff]
      exact ⟨make b, hmem, by rw [(hpick _ b).mpr rfl, Option.isSome_some]⟩
    obtain ⟨found, hfound⟩ := Option.isSome_iff_exists.mp hsome
    obtain ⟨a, ha, hb⟩ := List.exists_of_findSome?_eq_some hfound
    obtain rfl := (hpick a found).mp hb
    rw [hfound, ← hb, hsole found b ha hmem, (hpick _ b).mpr rfl]

/-- Nothing is picked from a list without such an item. -/
theorem findSome?_eq_none_of_forall_not_mem {as : List α} {pick : α → Option β} {make : β → α}
    (hpick : ∀ a b, pick a = some b ↔ a = make b) (hnone : ∀ b, make b ∉ as) :
    as.findSome? pick = none := by
  rw [List.findSome?_eq_none_iff]
  intro a ha
  rw [Option.eq_none_iff_forall_ne_some]
  intro b hb
  exact hnone b ((hpick a b).mp hb ▸ ha)

end AbiBindings.Outcome
