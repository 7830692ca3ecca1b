import AbiBindings.Artifact.Bytecode
import AbiBindings.Proofs.Outcome
import AbiBindings.Proofs.Text.Run
import Mathlib.Data.List.Pairwise

/-!
The sites of open addresses. Collecting them divides the digits into stretches and placeholders
that take turns, and every character outside the sites is a hexadecimal digit, but for line ends
in front of a site or at the end of the digits. No underscore is among these, so none is missed.
-/

namespace AbiBindings.Bytecode

open Outcome

structure Site where
  offset : Nat
  placeholder : Text

namespace Site

def Covers (site : Site) (position : Nat) : Prop :=
  2 * site.offset ≤ position ∧ position < 2 * site.offset + placeholderLength

/-- One of the sites ends before the other starts. -/
def Apart (a b : Site) : Prop :=
  2 * a.offset + placeholderLength ≤ 2 * b.offset ∨
    2 * b.offset + placeholderLength ≤ 2 * a.offset

instance : Std.Symm Apart := ⟨fun _ _ h => h.symm⟩

end Site

structure IsPlaceholder (t : Text) : Prop where
  length_eq : t.length = placeholderLength
  starts : marker <+: t
  ends : marker <:+ t

inductive Divided : (position : Nat) → Text → List Site → Prop
  | stretch {position : Nat} {t : Text} (ht : isHexStretch t = true) : Divided position t []
  | site {position offset : Nat} {stretch placeholder rest : Text} {sites : List Site}
      (hstretch : isHexStretch stretch = true) (hplaceholder : IsPlaceholder placeholder)
      (haligned : position + stretch.length = 2 * offset)
      (hrest : Divided (2 * offset + placeholderLength) rest sites) :
      Divided position (stretch ++ placeholder ++ rest) (⟨offset, placeholder⟩ :: sites)

def addSites (sites : List Site) (refs : List LinkRef) : List LinkRef :=
  sites.foldl (fun refs site => addSite site.placeholder site.offset refs) refs

theorem breakAtMarker_none {t before : Text} (h : breakAtMarker t = (before, none)) :
    t = before := by
  induction t generalizing before with
  | nil => exact (Prod.mk.inj h).1
  | cons c rest ih =>
    rw [breakAtMarker] at h
    split at h
    · cases h
    · obtain ⟨rfl, hnone⟩ := Prod.mk.inj h
      exact congrArg (c :: ·) (ih (Prod.ext rfl hnone))

theorem breakAtMarker_some {t before found : Text}
    (h : breakAtMarker t = (before, some found)) : t = before ++ found ∧ marker <+: found := by
  induction t generalizing before with
  | nil => cases h
  | cons c rest ih =>
    rw [breakAtMarker] at h
    split at h
    · next hstart =>
      cases h
      exact ⟨rfl, List.isPrefixOf_iff_prefix.mp hstart⟩
    · obtain ⟨rfl, hsome⟩ := Prod.mk.inj h
      obtain ⟨hrest, hmarker⟩ := ih (Prod.ext rfl hsome)
      exact ⟨congrArg (c :: ·) hrest, hmarker⟩

/-- What is collected are the sites of a division. -/
theorem collectSites_ok {count position : Nat} {t : Text} {refs all : List LinkRef}
    (h : collectSites count position t refs = .ok all) :
    ∃ sites, Divided position t sites ∧ all = addSites sites refs := by
  induction count generalizing position t refs with
  | zero =>
    rw [collectSites] at h
    split at h
    · next ht =>
      cases h
      exact ⟨[], .stretch ht, rfl⟩
    · cases h
  | succ count ih =>
    rw [collectSites] at h
    rcases hbreak : breakAtMarker t with ⟨stretch, found⟩
    rw [hbreak] at h
    simp only [Bool.not_eq_true'] at h
    split at h
    · cases h
    next hstretch =>
    rw [Bool.not_eq_false] at hstretch
    cases found with
    | none =>
      cases h
      obtain rfl := breakAtMarker_none hbreak
      exact ⟨[], .stretch hstretch, rfl⟩
    | some found =>
      obtain ⟨rfl, hmarker⟩ := breakAtMarker_some hbreak
      simp only at h
      split at h
      · cases h
      next hshape =>
      split at h
      · cases h
      next heven =>
      simp only [not_or, not_not, ne_eq] at hshape heven
      obtain ⟨hlength, hend⟩ := hshape
      have hplaceholder : IsPlaceholder (found.take placeholderLength) :=
        ⟨hlength, (List.prefix_take_iff.mpr ⟨hmarker, by decide⟩),
          List.isSuffixOf_iff_suffix.mp hend⟩
      have haligned : position + stretch.length = 2 * ((position + stretch.length) / 2) := by
        omega
      obtain ⟨sites, hdivided, rfl⟩ := ih h
      rw [haligned] at hdivided
      have hsite := Divided.site hstretch hplaceholder haligned hdivided
      rw [List.append_assoc, List.take_append_drop] at hsite
      exact ⟨_, hsite, rfl⟩

section

variable {position : Nat} {t : Text} {sites : List Site}

/-- The placeholder of a site stands in the text where the site says. -/
theorem Divided.stands (h : Divided position t sites) {site : Site} (hsite : site ∈ sites) :
    IsPlaceholder site.placeholder ∧ ∃ front back, t = front ++ site.placeholder ++ back ∧
      position + front.length = 2 * site.offset := by
  induction h with
  | stretch => cases hsite
  | @site position offset stretch placeholder rest sites _ hplaceholder haligned _ ih =>
    rcases List.mem_cons.mp hsite with rfl | hsite
    · exact ⟨hplaceholder, stretch, rest, rfl, haligned⟩
    · obtain ⟨hshape, front, back, rfl, hfront⟩ := ih hsite
      refine ⟨hshape, stretch ++ placeholder ++ front, back, by simp, ?_⟩
      have hlength := hplaceholder.length_eq
      simp only [List.length_append]
      omega

theorem Divided.position_le (h : Divided position t sites) {site : Site} (hsite : site ∈ sites) :
    position ≤ 2 * site.offset := by
  obtain ⟨-, front, -, -, hfront⟩ := h.stands hsite
  omega

theorem Divided.inside (h : Divided position t sites) {site : Site} (hsite : site ∈ sites) :
    2 * site.offset + placeholderLength ≤ position + t.length := by
  obtain ⟨hshape, front, back, rfl, hfront⟩ := h.stands hsite
  have hlength := hshape.length_eq
  simp only [List.length_append]
  omega

/-- Every site ends before the next one starts. -/
theorem Divided.spaced (h : Divided position t sites) :
    sites.Pairwise fun a b => 2 * a.offset + placeholderLength ≤ 2 * b.offset := by
  induction h with
  | stretch => exact List.Pairwise.nil
  | site _ _ _ hrest ih =>
    rw [List.pairwise_cons]
    exact ⟨fun site hsite => hrest.position_le hsite, ih⟩

theorem Divided.apart (h : Divided position t sites) {a b : Site} (ha : a ∈ sites) (hb : b ∈ sites)
    (hne : a ≠ b) : a.Apart b := by
  have hall : sites.Pairwise Site.Apart := h.spaced.imp fun hspaced => .inl hspaced
  exact hall.forall ha hb hne

/-- A stretch holds nothing but hexadecimal digits and maybe a line end, which is its last
character. -/
theorem getElem?_stretch (ht : isHexStretch t = true) {i : Nat} {c : CodePoint}
    (hc : t[i]? = some c) :
    c.isHexDigit = true ∨ c = CodePoint.ofChar '\n' ∧ i + 1 = t.length := by
  have hdigits : ∀ d ∈ Text.dropLineEnd t, d.isHexDigit = true := List.all_eq_true.mp ht
  rcases Text.eq_dropLineEnd t with heq | heq
  · rw [heq] at hc
    exact .inl (hdigits c (List.mem_of_getElem? hc))
  · rw [heq, List.getElem?_append] at hc
    split at hc
    · exact .inl (hdigits c (List.mem_of_getElem? hc))
    · next hle =>
      right
      obtain ⟨hi, rfl⟩ := List.getElem?_eq_some_iff.mp hc
      have hlength := congrArg List.length heq
      simp only [List.length_append, List.length_singleton] at hlength hi
      have hzero : i - (Text.dropLineEnd t).length = 0 := by omega
      simp only [hzero, List.getElem_cons_zero, true_and]
      omega

/-- Outside the sites there are hexadecimal digits, and line ends where a stretch ends. -/
theorem Divided.outside (h : Divided position t sites) {i : Nat} {c : CodePoint}
    (hc : t[i]? = some c) :
    (∃ site ∈ sites, site.Covers (position + i)) ∨ c.isHexDigit = true ∨
      c = CodePoint.ofChar '\n' ∧
        (i + 1 = t.length ∨ ∃ site ∈ sites, position + i + 1 = 2 * site.offset) := by
  induction h generalizing i with
  | stretch ht =>
    rcases getElem?_stretch ht hc with hhex | ⟨hline, hend⟩
    · exact .inr (.inl hhex)
    · exact .inr (.inr ⟨hline, .inl hend⟩)
  | @site position offset stretch placeholder rest sites hstretch hplaceholder haligned _ ih =>
    have hlength := hplaceholder.length_eq
    rw [List.append_assoc, List.getElem?_append] at hc
    split at hc
    · right
      rcases getElem?_stretch hstretch hc with hhex | ⟨hline, hend⟩
      · exact .inl hhex
      · refine .inr ⟨hline, .inr ⟨_, List.mem_cons_self, ?_⟩⟩
        simp only
        omega
    next hstretch =>
    rw [List.getElem?_append] at hc
    split at hc
    · exact .inl ⟨_, List.mem_cons_self, by simp only; omega, by simp only; omega⟩
    next hplaceholder =>
    -- the index in the rest, seen from the start of the rest
    have hposition : 2 * offset + placeholderLength + (i - stretch.length - placeholder.length) =
        position + i := by omega
    rcases ih hc with ⟨site, hsite, hcovers⟩ | hhex | ⟨hline, hend | ⟨site, hsite, hbefore⟩⟩
    · rw [hposition] at hcovers
      exact .inl ⟨site, List.mem_cons_of_mem _ hsite, hcovers⟩
    · exact .inr (.inl hhex)
    · refine .inr (.inr ⟨hline, .inl ?_⟩)
      simp only [List.length_append]
      omega
    · rw [hposition] at hbefore
      exact .inr (.inr ⟨hline, .inr ⟨site, List.mem_cons_of_mem _ hsite, hbefore⟩⟩)

end

end AbiBindings.Bytecode
