import AbiBindings.Proofs.Config.Names
import AbiBindings.Proofs.Script.Statements

/-!
Import lines of a source. Where a line stands in the source, its tokens stand among the lines that
are read from it, since the scanner takes no line back. A line in the form of an import is one if
the package it names can be imported from.
-/

namespace AbiBindings.Script

open Config (Importable IsPath)
open Text (Plain)

namespace State

variable {s s' : State} {c : CodePoint}

theorem lines_readCode (h : s.readCode c = some s') : s.lines <+: s'.lines := by
  unfold readCode at h
  split at h
  · cases h
    exact List.prefix_append _ _
  split at h
  · cases h
    exact List.prefix_rfl
  split at h
  · cases h
  split at h
  · split at h
    · cases h
    · cases h
      exact List.prefix_rfl
  · cases h
    exact List.prefix_rfl

theorem lines_readLiteral {d : Delimiter} {value : Text} (h : s.readLiteral d value c = some s') :
    s.lines <+: s'.lines := by
  unfold readLiteral at h
  split at h
  · split at h
    · cases h
      exact List.prefix_rfl
    · cases h
      exact List.prefix_rfl
  split at h
  · cases h
    exact List.prefix_rfl
  split at h
  · cases h
  · cases h
    exact List.prefix_rfl

/-- Reading a code point may add a line to those that are read, and leaves these as they are. -/
theorem lines_read (h : s.read c = some s') : s.lines <+: s'.lines := by
  obtain ⟨lines, line, mode⟩ := s
  have hmode {after : Option Mode}
      (h : (after.map fun mode => State.mk lines line mode) = some s') : lines <+: s'.lines := by
    obtain ⟨next, -, rfl⟩ := Option.map_eq_some_iff.mp h
    exact List.prefix_rfl
  cases mode with
  | code => exact lines_readCode h
  | comment =>
    rw [read_comment] at h
    obtain rfl := Option.some.inj h
    split
    · exact List.prefix_append _ _
    · exact List.prefix_rfl
  | opened mark =>
    rw [read_opened] at h
    split at h
    · cases h
      exact List.prefix_rfl
    · exact lines_readLiteral h
  | openedTwice mark =>
    rw [read_openedTwice] at h
    split at h
    · cases h
      exact List.prefix_rfl
    · have hemitted := lines_readCode h
      exact hemitted
  | inside d value => exact lines_readLiteral h
  | closing mark value count =>
    rw [read_closing] at h
    split at h
    · split at h
      · cases h
        exact List.prefix_rfl
      · cases h
        exact List.prefix_rfl
    · exact lines_readLiteral h
  | escape d value => exact hmode h
  | octal d value digits =>
    unfold read at h
    dsimp only at h
    split at h
    · cases h
      exact List.prefix_rfl
    · exact lines_readLiteral h
  | number d value width digits => exact hmode h

theorem lines_run {t : Text} (h : s.run t = some s') : s.lines <+: s'.lines := by
  induction t generalizing s with
  | nil =>
    cases h
    exact List.prefix_rfl
  | cons c rest ih =>
    rw [run_cons] at h
    obtain ⟨next, hstep, hrest⟩ := Option.bind_eq_some_iff.mp h
    unfold step at hstep
    split at hstep
    · cases hstep
    · exact (lines_read hstep).trans (ih hrest)

end State

theorem lineEnds_lines {all : List Text} {said : List (Option Statement)}
    (h : List.Forall₂ LineSays all said) : lineEnds (Client.lines all) = all.length := by
  induction h with
  | nil => rfl
  | @cons line _ others _ hline _ ih =>
    obtain ⟨tokens, hends, -⟩ := hline
    have hlines : Client.lines (line :: others) = line ++ "\n" ++ Client.lines others := rfl
    rw [hlines, lineEnds_append, hends.lineEnds, ih, List.length_cons, Nat.add_comm]

/-- A line behind others stands at their number among the lines that are read. -/
theorem getElem?_scan {all : List Text} {said : List (Option Statement)}
    (hall : List.Forall₂ LineSays all said) {line : Text} {tokens : Line}
    (hline : EndsAs (line ++ "\n") tokens) {rest : Text} {lines : List Line}
    (hscan : scan (Client.lines all ++ (line ++ "\n" ++ rest)) = some lines) :
    lines[all.length]? = some tokens := by
  obtain ⟨before, hrun, hends, -⟩ := says_lines hall
  have hlength : before.length = all.length := by rw [← hends, lineEnds_lines hall]
  have hfirst := hline.run before [] fun h => absurd h (by decide)
  rw [scan, State.run_append, start, hrun [], Option.bind_some, List.nil_append, State.run_append,
    hfirst, Option.bind_some, List.nil_append] at hscan
  split at hscan
  · next hrest =>
    obtain rfl := Option.some.inj hscan
    obtain ⟨more, rfl⟩ := State.lines_run hrest
    rw [← hlength, List.append_assoc, List.getElem?_append_right (Nat.le_refl _),
      Nat.sub_self]
    rfl
  · cases hscan

/-- Tokens that import names from a package: words that are no keywords, from a path of such
words. -/
structure IsImport (line : Line) (package : Text) (names : List Text) : Prop where
  line_eq : line = codes ("from " ++ package ++ " import " ++ Text.join ", " names)
  package : Importable package
  ne_nil : names ≠ []
  names : ∀ name ∈ names, Identifier.Usable [] name

theorem isPathPart_of_isPath {parts : List Text} {path : Text} (h : IsPath parts path) :
    ∀ c ∈ path, isPathPart c = true := by
  intro c hc
  rcases h.forall_mem c hc with rfl | hpart
  · rfl
  · rw [isPathPart, hpart, Bool.true_or]

theorem codes_inj {t t' : Text} : codes t = codes t' ↔ t = t' := by
  have hinjective : Function.Injective Token.code := fun _ _ h => Token.code.inj h
  exact (List.map_injective_iff.mpr hinjective).eq_iff

section

variable {path : Text} {names : List Text} {package' : Text} {names' : List Text}

/-- A path ends where the first blank stands. -/
theorem eq_of_append_blank {path' rest rest' : Text} (hpath : CodePoint.ofChar ' ' ∉ path)
    (hpath' : CodePoint.ofChar ' ' ∉ path')
    (h : path ++ CodePoint.ofChar ' ' :: rest = path' ++ CodePoint.ofChar ' ' :: rest') :
    path = path' := by
  have hsplit := congrArg (Text.splitOn ' ') h
  rw [Text.splitOn_append_separator hpath, Text.splitOn_append_separator hpath',
    List.cons.injEq] at hsplit
  exact hsplit.1

theorem IsImport.not_mem_blank {line : Line} (h : IsImport line package' names') :
    CodePoint.ofChar ' ' ∉ package' := by
  obtain ⟨parts, hparts, -⟩ := h.package
  exact hparts.not_mem (by decide) rfl

/-- A line in the form of an import names one package. -/
theorem IsImport.package_eq (hpath : CodePoint.ofChar ' ' ∉ path)
    (h : IsImport (codes ("from " ++ path ++ " import " ++ Text.join ", " names))
      package' names') : package' = path := by
  have hline := codes_inj.mp h.line_eq
  simp only [List.append_assoc] at hline
  have hbehind := List.append_cancel_left hline
  exact (eq_of_append_blank hpath h.not_mem_blank hbehind).symm

/-- A line that is cut off behind the path is no import. -/
theorem not_isImport_of_cut (hpath : CodePoint.ofChar ' ' ∉ path) :
    ¬ IsImport (codes ("from " ++ path)) package' names' := by
  intro h
  have hline := codes_inj.mp h.line_eq
  simp only [List.append_assoc] at hline
  have hbehind := List.append_cancel_left hline
  have hblank : CodePoint.ofChar ' ' ∈ package' ++ ((" import " : Text) ++
      Text.join ", " names') := by
    rw [List.mem_append, List.mem_append]
    exact .inr (.inl (by decide))
  rw [← hbehind] at hblank
  exact hpath hblank

end

end AbiBindings.Script
