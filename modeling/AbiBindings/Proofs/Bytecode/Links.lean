import AbiBindings.Proofs.Bytecode.Sites
import Mathlib.Data.List.Nodup

/-!
The open libraries of creation bytecode. Reading finds every placeholder where it stands: each
library once, in the order of the first sites, with all its offsets in increasing order, and no
underscore outside the sites. The text of the result reads back as the result.
-/

namespace AbiBindings.Bytecode

open Outcome

def HasSite (refs : List LinkRef) (site : Site) : Prop :=
  ∃ ref ∈ refs, ref.placeholder = site.placeholder ∧ site.offset ∈ ref.offsets

structure Ordered (refs : List LinkRef) : Prop where
  distinct : (refs.map LinkRef.placeholder).Nodup
  nonempty : ∀ ref ∈ refs, ref.offsets ≠ []
  increasing : ∀ ref ∈ refs, ref.offsets.Pairwise (· < ·)
  first : refs.Pairwise fun a b => ∃ first ∈ a.offsets, ∀ offset ∈ b.offsets, first < offset

section

variable {refs : List LinkRef} {placeholder : Text} {offset : Nat}

theorem hasSite_nil (site : Site) : ¬ HasSite [] site := by
  rintro ⟨ref, href, -⟩
  cases href

theorem hasSite_cons {ref : LinkRef} {site : Site} :
    HasSite (ref :: refs) site ↔
      (ref.placeholder = site.placeholder ∧ site.offset ∈ ref.offsets) ∨ HasSite refs site := by
  simp only [HasSite, List.exists_mem_cons_iff]

theorem hasSite_addSite {site : Site} :
    HasSite (addSite placeholder offset refs) site ↔
      HasSite refs site ∨ site = ⟨offset, placeholder⟩ := by
  have hsite : site = ⟨offset, placeholder⟩ ↔
      placeholder = site.placeholder ∧ site.offset = offset := by
    cases site
    simp only [Site.mk.injEq, eq_comm (a := placeholder)]
    exact and_comm
  rw [hsite]
  induction refs with
  | nil => simp only [addSite, hasSite_cons, List.mem_singleton, hasSite_nil, false_or, or_false]
  | cons ref rest ih =>
    rw [addSite]
    split
    · next heq =>
      simp only [hasSite_cons, List.mem_append, List.mem_singleton, heq]
      tauto
    · simp only [hasSite_cons, ih, or_assoc]

/-- Adding a site makes a new entry or adds an offset to an old one. -/
theorem mem_addSite {ref : LinkRef} (h : ref ∈ addSite placeholder offset refs) :
    ref ∈ refs ∨ ref = ⟨placeholder, [offset]⟩ ∨
      ∃ old ∈ refs, old.placeholder = placeholder ∧
        ref = { old with offsets := old.offsets ++ [offset] } := by
  induction refs with
  | nil => exact .inr (.inl (List.mem_singleton.mp h))
  | cons old rest ih =>
    rw [addSite] at h
    split at h
    · next heq =>
      rcases List.mem_cons.mp h with rfl | h
      · exact .inr (.inr ⟨old, List.mem_cons_self, heq, rfl⟩)
      · exact .inl (List.mem_cons_of_mem _ h)
    · rcases List.mem_cons.mp h with rfl | h
      · exact .inl List.mem_cons_self
      · rcases ih h with hold | hnew | ⟨old', hold', heq, href⟩
        · exact .inl (List.mem_cons_of_mem _ hold)
        · exact .inr (.inl hnew)
        · exact .inr (.inr ⟨old', List.mem_cons_of_mem _ hold', heq, href⟩)

theorem mem_map_addSite {other : Text}
    (h : other ∈ (addSite placeholder offset refs).map LinkRef.placeholder) :
    other ∈ refs.map LinkRef.placeholder ∨ other = placeholder := by
  obtain ⟨ref, href, rfl⟩ := List.mem_map.mp h
  rcases mem_addSite href with hold | rfl | ⟨old, hold, heq, rfl⟩
  · exact .inl (List.mem_map_of_mem hold)
  · exact .inr rfl
  · exact .inr heq

/-- A site behind all others keeps the order. -/
theorem Ordered.addSite (h : Ordered refs)
    (hbehind : ∀ ref ∈ refs, ∀ earlier ∈ ref.offsets, earlier < offset) :
    Ordered (addSite placeholder offset refs) := by
  induction refs with
  | nil =>
    constructor <;> simp [Bytecode.addSite]
  | cons ref rest ih =>
    have hrest : Ordered rest :=
      ⟨(List.nodup_cons.mp h.distinct).2, fun r hr => h.nonempty r (List.mem_cons_of_mem _ hr),
        fun r hr => h.increasing r (List.mem_cons_of_mem _ hr), (List.pairwise_cons.mp h.first).2⟩
    obtain ⟨hnew, hdistinct⟩ := List.nodup_cons.mp h.distinct
    have hfirst := (List.pairwise_cons.mp h.first).1
    rw [Bytecode.addSite]
    split
    · next heq =>
      -- the placeholder is known, and its new offset is its last
      refine ⟨h.distinct, ?_, ?_, ?_⟩
      · simp only [List.forall_mem_cons]
        exact ⟨by simp, hrest.nonempty⟩
      · simp only [List.forall_mem_cons]
        refine ⟨?_, hrest.increasing⟩
        rw [List.pairwise_append]
        refine ⟨h.increasing ref List.mem_cons_self, List.pairwise_singleton _ _, ?_⟩
        intro earlier hearlier later hlater
        rw [List.mem_singleton.mp hlater]
        exact hbehind ref List.mem_cons_self earlier hearlier
      · rw [List.pairwise_cons]
        refine ⟨?_, hrest.first⟩
        intro b hb
        obtain ⟨first, hmem, hlt⟩ := hfirst b hb
        exact ⟨first, List.mem_append_left _ hmem, hlt⟩
    · next hne =>
      -- the site goes further back, and this entry has an offset in front of it
      have hadded := ih hrest fun r hr => hbehind r (List.mem_cons_of_mem _ hr)
      obtain ⟨some, hsome⟩ := List.exists_mem_of_ne_nil _ (h.nonempty ref List.mem_cons_self)
      have hlt := hbehind ref List.mem_cons_self some hsome
      refine ⟨?_, ?_, ?_, ?_⟩
      · rw [List.map_cons, List.nodup_cons]
        refine ⟨?_, hadded.distinct⟩
        intro hmem
        rcases mem_map_addSite hmem with hold | heq
        · exact hnew hold
        · exact hne heq
      · rw [List.forall_mem_cons]
        exact ⟨h.nonempty ref List.mem_cons_self, hadded.nonempty⟩
      · rw [List.forall_mem_cons]
        exact ⟨h.increasing ref List.mem_cons_self, hadded.increasing⟩
      · rw [List.pairwise_cons]
        refine ⟨?_, hadded.first⟩
        intro b hb
        rcases mem_addSite hb with hold | rfl | ⟨old, hold, -, rfl⟩
        · exact hfirst b hold
        · refine ⟨some, hsome, ?_⟩
          intro later hlater
          rw [List.mem_singleton.mp hlater]
          exact hlt
        · obtain ⟨first, hmem, hbefore⟩ := hfirst old hold
          refine ⟨first, hmem, ?_⟩
          intro later hlater
          rcases List.mem_append.mp hlater with hlater | hlater
          · exact hbefore later hlater
          · rw [List.mem_singleton.mp hlater]
            exact hbehind ref List.mem_cons_self first hmem

end

section

variable {sites : List Site} {refs : List LinkRef}

theorem hasSite_addSites {site : Site} :
    HasSite (addSites sites refs) site ↔ HasSite refs site ∨ site ∈ sites := by
  induction sites generalizing refs with
  | nil => simp [addSites]
  | cons head rest ih =>
    have hstep : addSites (head :: rest) refs =
        addSites rest (addSite head.placeholder head.offset refs) := rfl
    rw [hstep, ih, hasSite_addSite, List.mem_cons, or_assoc]

theorem Ordered.addSites (h : Ordered refs)
    (hincreasing : sites.Pairwise fun a b => a.offset < b.offset)
    (hbehind : ∀ ref ∈ refs, ∀ earlier ∈ ref.offsets, ∀ site ∈ sites, earlier < site.offset) :
    Ordered (addSites sites refs) := by
  induction sites generalizing refs with
  | nil => exact h
  | cons head rest ih =>
    obtain ⟨hhead, hrest⟩ := List.pairwise_cons.mp hincreasing
    apply ih (h.addSite fun ref href earlier hearlier =>
      hbehind ref href earlier hearlier head List.mem_cons_self) hrest
    intro ref href earlier hearlier site hsite
    rcases mem_addSite href with hold | rfl | ⟨old, hold, -, rfl⟩
    · exact hbehind ref hold earlier hearlier site (List.mem_cons_of_mem _ hsite)
    · rw [List.mem_singleton.mp hearlier]
      exact hhead site hsite
    · rcases List.mem_append.mp hearlier with hearlier | hearlier
      · exact hbehind old hold earlier hearlier site (List.mem_cons_of_mem _ hsite)
      · rw [List.mem_singleton.mp hearlier]
        exact hhead site hsite

end

theorem notAhead_reverse_digitsOf (raw : Text) :
    Text.NotAhead CodePoint.isBlank (digitsOf raw).reverse := by
  have hend := Text.notAhead_reverse_trim raw
  rw [digitsOf]
  split
  · rw [List.reverse_drop]
    cases hreverse : (Text.trim raw).reverse with
    | nil => simp
    | cons c rest =>
      rw [hreverse] at hend
      cases hcount : (Text.trim raw).length - 2 with
      | zero => simp
      | succ count => exact hend
  · exact hend

/-- The digits do not end in a line end. -/
theorem getElem?_digitsOf_last {raw : Text} {i : Nat} (hi : i + 1 = (digitsOf raw).length) :
    (digitsOf raw)[i]? ≠ some (CodePoint.ofChar '\n') := by
  intro hline
  have hend := notAhead_reverse_digitsOf raw
  have hlast : (digitsOf raw).getLast? = some (CodePoint.ofChar '\n') := by
    rw [List.getLast?_eq_getElem?, ← hi, Nat.add_sub_cancel]
    exact hline
  rw [Text.NotAhead, List.head?_reverse, hlast] at hend
  cases hend

/-- The digits after `0x` are read back. -/
theorem digitsOf_prefixed (raw : Text) : digitsOf ("0x" ++ digitsOf raw) = digitsOf raw := by
  have htrim : Text.trim ("0x" ++ digitsOf raw) = "0x" ++ digitsOf raw := by
    apply Text.trim_eq_of_notAhead
    · exact Text.notAhead_cons.mpr rfl
    · rw [List.reverse_append]
      have hend := notAhead_reverse_digitsOf raw
      cases hreverse : (digitsOf raw).reverse with
      | nil => exact Text.notAhead_cons.mpr rfl
      | cons c rest =>
        rw [hreverse] at hend
        exact hend
  rw [digitsOf, htrim]
  rfl

theorem ofText?_eq_some {raw : Text} {code : Bytecode} :
    ofText? raw = .ok (some code) ↔ digitsOf raw ≠ [] ∧ (digitsOf raw).length % 2 = 0 ∧
      ∃ refs, collectSites (digitsOf raw).length 0 (digitsOf raw) [] = .ok refs ∧
        code = ⟨"0x" ++ digitsOf raw, refs⟩ := by
  rw [ofText?]
  simp only [List.isEmpty_iff]
  split
  · next hempty => simp [hempty]
  · next hne =>
    rw [bind_eq_ok]
    constructor
    · rintro ⟨refs, hcollect, hrest⟩
      split at hrest
      · cases hrest
      · next heven =>
        cases hrest
        exact ⟨hne, not_not.mp heven, refs, hcollect, rfl⟩
    · rintro ⟨-, heven, refs, hcollect, rfl⟩
      refine ⟨refs, hcollect, ?_⟩
      rw [if_neg (not_not.mpr heven)]
      rfl

/-- Reading divides the digits, and the libraries are those of the sites. -/
theorem divided_of_ofText? {raw : Text} {code : Bytecode} (h : ofText? raw = .ok (some code)) :
    ∃ sites, Divided 0 (digitsOf raw) sites ∧ Ordered code.linkRefs ∧
      ∀ site, HasSite code.linkRefs site ↔ site ∈ sites := by
  obtain ⟨-, -, refs, hcollect, rfl⟩ := ofText?_eq_some.mp h
  obtain ⟨sites, hdivided, rfl⟩ := collectSites_ok hcollect
  have hnone : Ordered [] := by constructor <;> simp
  refine ⟨sites, hdivided, ?_, ?_⟩
  · apply hnone.addSites
    · apply hdivided.spaced.imp
      intro a b hspaced
      simp only [placeholderLength] at hspaced
      omega
    · intro ref href
      cases href
  · intro site
    rw [hasSite_addSites, or_iff_right (hasSite_nil site)]

/-- The placeholders in the digits are those of the libraries, where their offsets say. -/
structure Links (digits : Text) (refs : List LinkRef) : Prop where
  ordered : Ordered refs
  placeholder : ∀ ref ∈ refs, IsPlaceholder ref.placeholder
  inside : ∀ ref ∈ refs, ∀ offset ∈ ref.offsets,
    2 * offset + placeholderLength ≤ digits.length
  stands : ∀ ref ∈ refs, ∀ offset ∈ ref.offsets,
    (digits.drop (2 * offset)).take placeholderLength = ref.placeholder
  disjoint : ∀ a ∈ refs, ∀ b ∈ refs, ∀ i ∈ a.offsets, ∀ j ∈ b.offsets, a ≠ b ∨ i ≠ j →
    2 * i + placeholderLength ≤ 2 * j ∨ 2 * j + placeholderLength ≤ 2 * i
  underscore : ∀ position : Nat, digits[position]? = some (CodePoint.ofChar '_') →
    ∃ ref ∈ refs, ∃ offset ∈ ref.offsets,
      2 * offset ≤ position ∧ position < 2 * offset + placeholderLength
  library : ∀ ref ∈ refs, ∃ before after,
    ref.placeholder = List.replicate before (CodePoint.ofChar '_') ++ ref.library ++
      List.replicate after (CodePoint.ofChar '_') ∧
    ref.library.head? ≠ some (CodePoint.ofChar '_') ∧
    ref.library.getLast? ≠ some (CodePoint.ofChar '_')

section

variable {raw : Text} {code : Bytecode}

theorem links_of_ofText? (h : ofText? raw = .ok (some code)) :
    Links (digitsOf raw) code.linkRefs := by
  obtain ⟨sites, hdivided, hordered, hsites⟩ := divided_of_ofText? h
  have hsite {ref : LinkRef} (href : ref ∈ code.linkRefs) {offset : Nat}
      (hoffset : offset ∈ ref.offsets) : (⟨offset, ref.placeholder⟩ : Site) ∈ sites :=
    (hsites _).mp ⟨ref, href, rfl, hoffset⟩
  refine ⟨hordered, ?_, ?_, ?_, ?_, ?_, ?_⟩
  · intro ref href
    obtain ⟨offset, hoffset⟩ := List.exists_mem_of_ne_nil _ (hordered.nonempty ref href)
    exact (hdivided.stands (hsite href hoffset)).1
  · intro ref href offset hoffset
    have hinside := hdivided.inside (hsite href hoffset)
    rw [Nat.zero_add] at hinside
    exact hinside
  · intro ref href offset hoffset
    obtain ⟨hshape, front, back, heq, hfront⟩ := hdivided.stands (hsite href hoffset)
    have hlength := hshape.length_eq
    simp only [Nat.zero_add] at hfront hlength heq
    rw [heq, ← hfront, List.append_assoc, List.drop_left, ← hlength, List.take_left]
  · intro a ha b hb i hi j hj hne
    have hsites : (⟨i, a.placeholder⟩ : Site) ≠ ⟨j, b.placeholder⟩ := by
      intro heq
      obtain ⟨rfl, hsame⟩ := Site.mk.inj heq
      have hab := List.inj_on_of_nodup_map hordered.distinct ha hb hsame
      rcases hne with hne | hne
      · exact hne hab
      · exact hne rfl
    exact hdivided.apart (hsite ha hi) (hsite hb hj) hsites
  · intro position hposition
    rcases hdivided.outside hposition with ⟨site, hmem, hcovers⟩ | hhex | ⟨hline, -⟩
    · obtain ⟨ref, href, -, hoffset⟩ := (hsites site).mpr hmem
      rw [Site.Covers, Nat.zero_add] at hcovers
      exact ⟨ref, href, site.offset, hoffset, hcovers⟩
    · cases hhex
    · cases hline
  · intro ref _
    exact Text.exists_eq_trimUnderscores ref.placeholder

/-- Creation bytecode that was read has an even number of digits, all its placeholders are known
with their sites, and it reads back as itself. -/
theorem ofText?_links (h : ofText? raw = .ok (some code)) :
    ∃ digits, code.hex = "0x" ++ digits ∧ digits ≠ [] ∧ digits.length % 2 = 0 ∧
      Links digits code.linkRefs ∧ ofText? code.hex = .ok (some code) := by
  obtain ⟨hne, heven, refs, hcollect, hcode⟩ := ofText?_eq_some.mp h
  have hhex : code.hex = "0x" ++ digitsOf raw := by rw [hcode]
  refine ⟨digitsOf raw, hhex, hne, heven, links_of_ofText? h, ?_⟩
  rw [hhex, ofText?_eq_some, digitsOf_prefixed]
  exact ⟨hne, heven, refs, hcollect, hcode⟩

end

/-- Two placeholders side by side, the first of them once more, and blanks around. -/
def adjacent : Text :=
  " 0X60__$0123456789abcdef0123456789abcdef01$__" ++
    "__Math__________________________________" ++
    "F0__$0123456789abcdef0123456789abcdef01$__ "

set_option maxRecDepth 4000 in
theorem ofText?_links_adjacent :
    ∃ code, ofText? adjacent = .ok (some code) ∧
      ∃ digits, code.hex = "0x" ++ digits ∧ digits ≠ [] ∧ digits.length % 2 = 0 ∧
        Links digits code.linkRefs ∧ ofText? code.hex = .ok (some code) := by
  obtain ⟨code, h⟩ : ∃ code, ofText? adjacent = .ok (some code) := ⟨_, rfl⟩
  exact ⟨code, h, ofText?_links h⟩

end AbiBindings.Bytecode
