import AbiBindings.Proofs.Artifact.Loading
import AbiBindings.Proofs.Bytecode.Links

/-!
Linking creation bytecode. Writing addresses over all sites leaves hexadecimal digits, except that
a line end may stand in front of a site. The addresses of deployments are digits in the same way,
with at most a line end behind them.
-/

namespace AbiBindings.Bytecode

open Artifact (IsAddressDigits)

/-- Writes a text over another from a position on. -/
def overwrite (start : Nat) (new t : Text) : Text :=
  t.take start ++ new ++ t.drop (start + new.length)

section

variable {start : Nat} {new t : Text}

theorem length_overwrite (h : start + new.length ≤ t.length) :
    (overwrite start new t).length = t.length := by
  simp only [overwrite, List.length_append, List.length_take, List.length_drop]
  omega

theorem getElem?_overwrite (h : start + new.length ≤ t.length) (i : Nat) :
    (overwrite start new t)[i]? =
      if start ≤ i ∧ i < start + new.length then new[i - start]? else t[i]? := by
  have hstart : (t.take start).length = start := by
    rw [List.length_take]
    omega
  rw [overwrite, List.append_assoc, List.getElem?_append, hstart]
  split
  · next hlt =>
    rw [if_neg (by omega), List.getElem?_take_of_lt hlt]
  · rw [List.getElem?_append]
    split
    · rw [if_pos (by omega)]
    · rw [if_neg (by omega), List.getElem?_drop]
      congr 1
      omega

theorem overwrite_append (front : Text) :
    overwrite (front.length + start) new (front ++ t) = front ++ overwrite start new t := by
  rw [overwrite, Nat.add_assoc, List.take_length_add_append, List.drop_length_add_append,
    List.append_assoc, List.append_assoc, overwrite, List.append_assoc]

end

/-- Writes at every site the digits that its placeholder stands for. -/
def overwriteSites (digitsFor : Text → Text) (sites : List Site) (t : Text) : Text :=
  sites.foldl (fun t site => overwrite (2 * site.offset) (digitsFor site.placeholder) t) t

section

variable {digitsFor : Text → Text} {sites : List Site} {t : Text}

theorem length_overwriteSites
    (hdigits : ∀ site ∈ sites, (digitsFor site.placeholder).length = placeholderLength)
    (hinside : ∀ site ∈ sites, 2 * site.offset + placeholderLength ≤ t.length) :
    (overwriteSites digitsFor sites t).length = t.length := by
  induction sites generalizing t with
  | nil => rfl
  | cons head rest ih =>
    rw [List.forall_mem_cons] at hdigits hinside
    have hfits : 2 * head.offset + (digitsFor head.placeholder).length ≤ t.length := by
      rw [hdigits.1]
      exact hinside.1
    have hhead := length_overwrite hfits
    have hrest := ih (t := overwrite (2 * head.offset) (digitsFor head.placeholder) t) hdigits.2
      (by rw [hhead]; exact hinside.2)
    rw [← hhead]
    exact hrest

theorem foldl_overwrite_append (front : Text) :
    sites.foldl (fun t site => overwrite (front.length + 2 * site.offset)
        (digitsFor site.placeholder) t) (front ++ t) =
      front ++ overwriteSites digitsFor sites t := by
  induction sites generalizing t with
  | nil => rfl
  | cons head rest ih =>
    rw [List.foldl_cons, overwrite_append]
    exact ih

/-- Each character is kept, unless a site covers it: then it is a digit of what is written at a
site. -/
theorem getElem?_overwriteSites
    (hdigits : ∀ site ∈ sites, (digitsFor site.placeholder).length = placeholderLength)
    (hinside : ∀ site ∈ sites, 2 * site.offset + placeholderLength ≤ t.length) (i : Nat) :
    ((∀ site ∈ sites, ¬ site.Covers i) ∧ (overwriteSites digitsFor sites t)[i]? = t[i]?) ∨
      ∃ site ∈ sites, site.Covers i ∧
        ∃ c ∈ digitsFor site.placeholder, (overwriteSites digitsFor sites t)[i]? = some c := by
  induction sites generalizing t with
  | nil => exact .inl ⟨by simp, rfl⟩
  | cons head rest ih =>
    rw [List.forall_mem_cons] at hdigits hinside
    have hfits : 2 * head.offset + (digitsFor head.placeholder).length ≤ t.length := by
      rw [hdigits.1]
      exact hinside.1
    have hinside' : ∀ site ∈ rest, 2 * site.offset + placeholderLength ≤
        (overwrite (2 * head.offset) (digitsFor head.placeholder) t).length := by
      rw [length_overwrite hfits]
      exact hinside.2
    have hwritten := getElem?_overwrite hfits i
    rcases ih hdigits.2 hinside' with ⟨hnone, hkept⟩ | ⟨site, hsite, hcovers, c, hc, hget⟩
    · rw [hdigits.1] at hwritten
      split at hwritten
      · next hcovers =>
        have hlt : i - 2 * head.offset < (digitsFor head.placeholder).length := by
          rw [hdigits.1]
          omega
        rw [List.getElem?_eq_getElem hlt] at hwritten
        exact .inr ⟨head, List.mem_cons_self, hcovers, _, List.getElem_mem hlt,
          hkept.trans hwritten⟩
      · next hcovers =>
        exact .inl ⟨List.forall_mem_cons.mpr ⟨hcovers, hnone⟩, hkept.trans hwritten⟩
    · exact .inr ⟨site, List.mem_cons_of_mem _ hsite, hcovers, c, hc, hget⟩

end

def sitesOf (refs : List LinkRef) : List Site :=
  refs.flatMap fun ref => ref.offsets.map fun offset => ⟨offset, ref.placeholder⟩

/-- The text with the digits of an address at every site, which is counted from behind `0x`. -/
def link (digitsFor : Text → Text) (code : Bytecode) : Text :=
  (sitesOf code.linkRefs).foldl
    (fun t site => overwrite (2 + 2 * site.offset) (digitsFor site.placeholder) t) code.hex

theorem mem_sitesOf {refs : List LinkRef} {site : Site} :
    site ∈ sitesOf refs ↔ HasSite refs site := by
  simp only [sitesOf, List.mem_flatMap, List.mem_map]
  constructor
  · rintro ⟨ref, href, offset, hoffset, rfl⟩
    exact ⟨ref, href, rfl, hoffset⟩
  · rintro ⟨ref, href, heq, hoffset⟩
    exact ⟨ref, href, site.offset, hoffset, by rw [heq]⟩

theorem link_eq {code : Bytecode} {digits : Text} (h : code.hex = "0x" ++ digits)
    (digitsFor : Text → Text) :
    link digitsFor code = "0x" ++ overwriteSites digitsFor (sitesOf code.linkRefs) digits := by
  rw [link, h]
  exact foldl_overwrite_append "0x"

section

variable {raw : Text} {code : Bytecode} {digitsFor : Text → Text}

/-- No site covers a line end that stands right in front of another site: the last character of a
placeholder is an underscore. -/
theorem Divided.uncovered {position : Nat} {t : Text} {sites : List Site}
    (h : Divided position t sites) {site : Site} (hsite : site ∈ sites) {i : Nat}
    (hi : position + i + 1 = 2 * site.offset) (hline : t[i]? = some (CodePoint.ofChar '\n')) :
    ∀ other ∈ sites, ¬ other.Covers (position + i) := by
  rintro other hother ⟨hstart, hend⟩
  have hne : other ≠ site := by
    rintro rfl
    omega
  obtain ⟨hshape, front, back, rfl, hfront⟩ := h.stands hother
  obtain ⟨start, heq⟩ := hshape.ends
  have hlength := hshape.length_eq
  have hmarker : List.length marker = 2 := rfl
  simp only [← heq, List.length_append, hmarker] at hlength
  have hlast : i = front.length + (start.length + 1) := by
    rcases h.apart hother hsite hne with happart | happart
    · omega
    · simp only [placeholderLength] at happart hend
      omega
  -- the character is the second one of the marker that ends the placeholder
  rw [← heq, hlast, List.append_assoc, List.append_assoc, List.getElem?_append_right (by omega),
    Nat.add_sub_cancel_left, List.getElem?_append_right (by omega),
    Nat.add_sub_cancel_left] at hline
  cases hline

/-- Over the sites there are digits of addresses, and outside them what a division leaves there. -/
theorem Divided.linked {t : Text} {sites all : List Site} (h : Divided 0 t sites)
    (hall : ∀ site, site ∈ all ↔ site ∈ sites)
    (haddress : ∀ site ∈ all, IsAddressDigits (digitsFor site.placeholder)) :
    (overwriteSites digitsFor all t).length = t.length ∧
    (∀ (i : Nat) (c : CodePoint), (overwriteSites digitsFor all t)[i]? = some c →
      c.isHexDigit = true ∨ c = CodePoint.ofChar '\n' ∧ t[i]? = some c ∧
        (i + 1 = t.length ∨ ∃ site ∈ sites, i + 1 = 2 * site.offset)) ∧
    (∀ site ∈ sites, ∀ i, i + 1 = 2 * site.offset → t[i]? = some (CodePoint.ofChar '\n') →
      (overwriteSites digitsFor all t)[i]? = some (CodePoint.ofChar '\n')) := by
  have hlength : ∀ site ∈ all, (digitsFor site.placeholder).length = placeholderLength :=
    fun site hsite => (haddress site hsite).length_eq
  have hinside : ∀ site ∈ all, 2 * site.offset + placeholderLength ≤ t.length := by
    intro site hsite
    have hfits := h.inside ((hall site).mp hsite)
    rw [Nat.zero_add] at hfits
    exact hfits
  have hget := getElem?_overwriteSites hlength hinside
  refine ⟨length_overwriteSites hlength hinside, ?_, ?_⟩
  · intro i c hc
    rcases hget i with ⟨huncovered, hkept⟩ | ⟨site, hsite, -, d, hd, hwritten⟩
    · rw [hc] at hkept
      rcases h.outside hkept.symm with ⟨site, hsite, hcovers⟩ | hhex | ⟨hline, hbefore⟩
      · rw [Nat.zero_add] at hcovers
        exact absurd hcovers (huncovered site ((hall site).mpr hsite))
      · exact .inl hhex
      · simp only [Nat.zero_add] at hbefore
        exact .inr ⟨hline, hkept.symm, hbefore⟩
    · rw [hc, Option.some.injEq] at hwritten
      rw [hwritten]
      exact .inl ((haddress site hsite).isHexDigit d hd)
  · intro site hsite i hi hline
    have huncovered := h.uncovered hsite (by omega) hline
    rw [Nat.zero_add] at huncovered
    rcases hget i with ⟨-, hkept⟩ | ⟨other, hother, hcovers, -⟩
    · rw [hkept, hline]
    · exact absurd hcovers (huncovered other ((hall other).mp hother))

/-- What stands in front of a site, counted with `0x`. -/
theorem getElem?_prefixed_eq_line {t : Text} {offset : Nat} :
    (("0x" : Text) ++ t)[2 * offset + 1]? = some (CodePoint.ofChar '\n') ↔
      ∃ i, i + 1 = 2 * offset ∧ t[i]? = some (CodePoint.ofChar '\n') := by
  cases offset with
  | zero =>
    constructor
    · intro h
      cases h
    · rintro ⟨i, hi, -⟩
      omega
  | succ n =>
    have hshift : (("0x" : Text) ++ t)[2 * (n + 1) + 1]? = t[2 * n + 1]? := rfl
    rw [hshift]
    constructor
    · intro h
      exact ⟨2 * n + 1, by omega, h⟩
    · rintro ⟨i, hi, h⟩
      obtain rfl : i = 2 * n + 1 := by omega
      exact h

/-- Linking leaves as many digits, and each is hexadecimal or a line end; line ends remain exactly
where one stands in front of a site. -/
theorem link_of_ofText? (h : ofText? raw = .ok (some code))
    (haddress : ∀ ref ∈ code.linkRefs, IsAddressDigits (digitsFor ref.placeholder)) :
    ∃ digits, link digitsFor code = "0x" ++ digits ∧ digits.length % 2 = 0 ∧
      (∀ c ∈ digits, c.isHexDigit = true ∨ c = CodePoint.ofChar '\n') ∧
      ((∀ c ∈ digits, c.isHexDigit = true) ↔ ∀ ref ∈ code.linkRefs, ∀ offset ∈ ref.offsets,
        code.hex[2 * offset + 1]? ≠ some (CodePoint.ofChar '\n')) := by
  obtain ⟨-, heven, refs, -, rfl⟩ := ofText?_eq_some.mp h
  obtain ⟨sites, hdivided, -, hsites⟩ := divided_of_ofText? h
  have hall (site : Site) : site ∈ sitesOf refs ↔ site ∈ sites := mem_sitesOf.trans (hsites site)
  have hdigits : ∀ site ∈ sitesOf refs, IsAddressDigits (digitsFor site.placeholder) := by
    intro site hsite
    obtain ⟨ref, href, heq, -⟩ := mem_sitesOf.mp hsite
    rw [← heq]
    exact haddress ref href
  obtain ⟨hlength, hlinked, hlines⟩ := hdivided.linked hall hdigits
  refine ⟨_, link_eq rfl digitsFor, by rw [hlength]; exact heven, ?_, ?_⟩
  · intro c hc
    obtain ⟨i, hi⟩ := List.mem_iff_getElem?.mp hc
    exact (hlinked i c hi).imp_right And.left
  · simp only [ne_eq, getElem?_prefixed_eq_line]
    constructor
    · rintro hhex ref href offset hoffset ⟨i, hi, hline⟩
      have hsite := (hsites ⟨offset, ref.placeholder⟩).mp ⟨ref, href, rfl, hoffset⟩
      have hkept := hlines _ hsite i hi hline
      cases hhex _ (List.mem_of_getElem? hkept)
    · intro hnone c hc
      obtain ⟨i, hi⟩ := List.mem_iff_getElem?.mp hc
      rcases hlinked i c hi with hhex | ⟨rfl, hline, hlast | ⟨site, hsite, hbefore⟩⟩
      · exact hhex
      · -- the digits were trimmed, so no line end is the last of them
        exact absurd hline (getElem?_digitsOf_last hlast)
      · obtain ⟨ref, href, -, hoffset⟩ := (hsites site).mpr hsite
        exact absurd ⟨i, hbefore, hline⟩ (hnone ref href site.offset hoffset)

end

theorem address_eq_iff {t : Text} (h : Artifact.isAddress t = true) :
    (∃ digits, IsAddressDigits digits ∧ t = "0x" ++ digits) ↔
      t.getLast? ≠ some (CodePoint.ofChar '\n') := by
  constructor
  · rintro ⟨digits, hdigits, rfl⟩ hlast
    rcases List.mem_append.mp (List.mem_of_getLast? hlast) with hstart | hmem
    · revert hstart
      decide
    · cases hdigits.isHexDigit _ hmem
  · intro hlast
    obtain ⟨digits, hdigits, rfl | rfl⟩ := Artifact.exists_digits_of_isAddress h
    · exact ⟨digits, hdigits, rfl⟩
    · exact absurd List.getLast?_concat hlast

/-- Linked bytecode and the addresses of deployments are hexadecimal digits but for line ends: one
may stand in front of a site, and one at the end of an address. -/
theorem link_isHexDigit_iff (raw : Text) (document : Json) (name : Option Text)
    (digitsFor : Text → Text) :
    (∀ code, ofText? raw = .ok (some code) →
      (∀ ref ∈ code.linkRefs, IsAddressDigits (digitsFor ref.placeholder)) →
      ∃ digits, link digitsFor code = "0x" ++ digits ∧ digits.length % 2 = 0 ∧
        (∀ c ∈ digits, c.isHexDigit = true ∨ c = CodePoint.ofChar '\n') ∧
        ((∀ c ∈ digits, c.isHexDigit = true) ↔ ∀ ref ∈ code.linkRefs, ∀ offset ∈ ref.offsets,
          code.hex[2 * offset + 1]? ≠ some (CodePoint.ofChar '\n'))) ∧
    ∀ artifact, Artifact.load document name = .ok artifact →
      ∀ network ∈ artifact.deployments,
        (∃ digits, IsAddressDigits digits ∧
          (network.2 = "0x" ++ digits ∨ network.2 = "0x" ++ digits ++ [CodePoint.ofChar '\n'])) ∧
        ((∃ digits, IsAddressDigits digits ∧ network.2 = "0x" ++ digits) ↔
          network.2.getLast? ≠ some (CodePoint.ofChar '\n')) := by
  constructor
  · intro code h haddress
    exact link_of_ofText? h haddress
  · intro artifact h network hnetwork
    obtain ⟨document, -, -, hspelled⟩ := Artifact.load_ok h
    obtain ⟨fields, -, hdeployments⟩ := hspelled.deployments
    obtain ⟨field, -, -, -, haddress⟩ := Outcome.exists_of_forall₂ hdeployments hnetwork
    exact ⟨Artifact.exists_digits_of_isAddress haddress, address_eq_iff haddress⟩

def zeros : Text := List.replicate placeholderLength '0'

theorem isAddressDigits_zeros : IsAddressDigits zeros where
  length_eq := List.length_replicate
  isHexDigit := by
    intro c hc
    rw [List.eq_of_mem_replicate hc]
    rfl

def brokenLine : Text := "a\n__Math__________________________________"

/-- A contract with an address that ends in a line end. -/
def brokenAddress : Json :=
  .obj [("contractName", .str "Broken"), ("abi", .arr []),
    ("networks", .obj [("1", .str ("0x" ++ zeros ++ [CodePoint.ofChar '\n']))])]

theorem link_isHexDigit_iff_broken :
    (∃ code, ofText? brokenLine = .ok (some code) ∧
      ∃ digits, link (fun _ => zeros) code = "0x" ++ digits ∧ digits.length % 2 = 0 ∧
        (∀ c ∈ digits, c.isHexDigit = true ∨ c = CodePoint.ofChar '\n') ∧
        ((∀ c ∈ digits, c.isHexDigit = true) ↔ ∀ ref ∈ code.linkRefs, ∀ offset ∈ ref.offsets,
          code.hex[2 * offset + 1]? ≠ some (CodePoint.ofChar '\n'))) ∧
    ∃ artifact, Artifact.load brokenAddress none = .ok artifact ∧
      ∃ network ∈ artifact.deployments,
        network.2.getLast? = some (CodePoint.ofChar '\n') ∧
        ∃ digits, IsAddressDigits digits ∧
          (network.2 = "0x" ++ digits ∨
            network.2 = "0x" ++ digits ++ [CodePoint.ofChar '\n']) := by
  obtain ⟨hlinked, hloaded⟩ :=
    link_isHexDigit_iff brokenLine brokenAddress none fun _ => zeros
  constructor
  · obtain ⟨code, h⟩ : ∃ code, ofText? brokenLine = .ok (some code) := ⟨_, rfl⟩
    exact ⟨code, h, hlinked code h fun _ _ => isAddressDigits_zeros⟩
  · obtain ⟨artifact, h, network, hnetwork, hlast⟩ : ∃ artifact,
        Artifact.load brokenAddress none = .ok artifact ∧
          ∃ network ∈ artifact.deployments,
            network.2.getLast? = some (CodePoint.ofChar '\n') :=
      ⟨_, rfl, _, List.mem_cons_self, rfl⟩
    exact ⟨artifact, h, network, hnetwork, hlast, (hloaded artifact h network hnetwork).1⟩

/-- Neither linked bytecode nor an address is always free of line ends. -/
theorem exists_line_end_in_link :
    ¬ (∀ (raw : Text) (code : Bytecode) (digitsFor : Text → Text),
      ofText? raw = .ok (some code) →
      (∀ ref ∈ code.linkRefs, IsAddressDigits (digitsFor ref.placeholder)) →
      ∃ digits, link digitsFor code = "0x" ++ digits ∧ digits.length % 2 = 0 ∧
        ∀ c ∈ digits, c.isHexDigit = true) ∧
    ¬ ∀ (raw : Json) (name : Option Text) (artifact : Artifact),
      Artifact.load raw name = .ok artifact → ∀ network ∈ artifact.deployments,
      ∃ digits, IsAddressDigits digits ∧ network.2 = "0x" ++ digits := by
  constructor
  · intro hall
    obtain ⟨code, h, hlinked⟩ : ∃ code, ofText? brokenLine = .ok (some code) ∧
      link (fun _ => zeros) code = "0xa\n" ++ zeros := ⟨_, rfl, rfl⟩
    obtain ⟨digits, heq, -, hhex⟩ := hall _ _ (fun _ => zeros) h fun _ _ =>
      isAddressDigits_zeros
    rw [hlinked] at heq
    change ("0x" : Text) ++ ("a\n" ++ zeros) = "0x" ++ digits at heq
    have hdigits := List.append_cancel_left heq
    have hline : CodePoint.ofChar '\n' ∈ digits := by
      rw [← hdigits]
      exact List.mem_append_left _ (List.mem_cons_of_mem _ List.mem_cons_self)
    cases hhex _ hline
  · intro hall
    obtain ⟨artifact, h, network, hnetwork, haddress⟩ : ∃ artifact,
        Artifact.load brokenAddress none = .ok artifact ∧
          ∃ network ∈ artifact.deployments,
            network.2 = "0x" ++ zeros ++ [CodePoint.ofChar '\n'] :=
      ⟨_, rfl, _, List.mem_cons_self, rfl⟩
    obtain ⟨digits, hdigits, heq⟩ := hall _ _ _ h network hnetwork
    rw [haddress] at heq
    have hlength := congrArg List.length heq
    simp only [List.length_append, hdigits.length_eq, isAddressDigits_zeros.length_eq,
      List.length_singleton] at hlength
    omega

end AbiBindings.Bytecode
