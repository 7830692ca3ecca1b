import AbiBindings.Proofs.Config.Aliases
import AbiBindings.Proofs.Identifier.Sanitize
import AbiBindings.Proofs.Text.Plain
import AbiBindings.Proofs.Text.Split

/-!
Names that pass the check of a configuration: identifiers as aliases, and paths of identifiers as
packages. The check lets a line end follow either of them, and it never asks whether a part of a
path is a keyword.
-/

namespace AbiBindings

open Identifier (Legal)

namespace Text

/-- A text is a word, perhaps with one line end after it. -/
def IsEnded (word t : Text) : Prop := t = word ∨ t = word ++ "\n"

/-- Of a text with one line end at most, the word is what is left without it. -/
theorem IsEnded.dropLineEnd_eq {word t : Text} (h : IsEnded word t)
    (hword : CodePoint.ofChar '\n' ∉ word) : dropLineEnd t = word := by
  rcases h with rfl | rfl
  · rw [dropLineEnd, if_neg]
    intro hlast
    exact hword (List.mem_of_getLast? (eq_of_beq hlast))
  · have hend : (word ++ ("\n" : Text)).getLast? = some (CodePoint.ofChar '\n') :=
      List.getLast?_concat
    rw [dropLineEnd, hend, if_pos (beq_self_eq_true _)]
    exact List.dropLast_concat

/-- The word is the whole text exactly if the text has no line end. -/
theorem IsEnded.eq_iff {word t : Text} (h : IsEnded word t)
    (hword : CodePoint.ofChar '\n' ∉ word) : t = word ↔ CodePoint.ofChar '\n' ∉ t := by
  rcases h with rfl | rfl
  · exact iff_of_true rfl hword
  · have hmem : CodePoint.ofChar '\n' ∈ word ++ ("\n" : Text) :=
      List.mem_append_right _ (List.mem_singleton_self _)
    refine iff_of_false ?_ (not_not_intro hmem)
    intro heq
    rw [← heq] at hword
    exact hword hmem

end Text

open Text (IsEnded)

theorem Identifier.Legal.not_mem {t : Text} (h : Legal t) {c : CodePoint}
    (hc : c.isIdentifierPart = false) : c ∉ t := by
  intro hmem
  rw [h.parts c hmem] at hc
  cases hc

namespace Config

theorem isIdentifier_eq_true {t : Text} : isIdentifier t = true ↔ Legal t := by
  rw [isIdentifier, Bool.and_eq_true, List.all_eq_true]
  exact ⟨fun h => ⟨h.1, h.2⟩, fun h => ⟨h.start, h.parts⟩⟩

/-- Identifiers with dots between them, one at least. -/
structure IsPath (parts : List Text) (t : Text) : Prop where
  ne_nil : parts ≠ []
  joined : t = Text.join "." parts
  legal : ∀ part ∈ parts, Legal part

/-- The parts of a path stand between its dots. -/
theorem IsPath.parts_eq {parts : List Text} {t : Text} (h : IsPath parts t) :
    parts = Text.splitOn '.' t := by
  rw [h.joined]
  exact (Text.splitOn_join h.ne_nil fun part hpart => (h.legal part hpart).not_mem rfl).symm

theorem exists_isPath {t : Text} :
    (∃ parts, IsPath parts t) ↔ (Text.splitOn '.' t).all isIdentifier = true := by
  simp only [List.all_eq_true, isIdentifier_eq_true]
  constructor
  · rintro ⟨parts, h⟩
    rw [← h.parts_eq]
    exact h.legal
  · exact fun h => ⟨_, Text.splitOn_ne_nil t, (Text.join_splitOn t).symm, h⟩

theorem IsPath.forall_mem {parts : List Text} {t : Text} (h : IsPath parts t) :
    ∀ c ∈ t, c = CodePoint.ofChar '.' ∨ c.isIdentifierPart = true := by
  have hdot : ∀ c ∈ ("." : Text), c = CodePoint.ofChar '.' ∨ c.isIdentifierPart = true := by decide
  rw [h.joined, Text.forall_mem_join hdot]
  exact fun part hpart c hc => .inr ((h.legal part hpart).parts c hc)

theorem IsPath.not_mem {parts : List Text} {t : Text} (h : IsPath parts t) {c : CodePoint}
    (hdot : c ≠ CodePoint.ofChar '.') (hc : c.isIdentifierPart = false) : c ∉ t := by
  intro hmem
  rcases h.forall_mem c hmem with heq | hpart
  · exact hdot heq
  · rw [hpart] at hc
    cases hc

/-- A path that can be imported from: none of its parts is a keyword. -/
def Importable (t : Text) : Prop :=
  ∃ parts, IsPath parts t ∧ ∀ part ∈ parts, part ∉ Identifier.keywords

/-- A package is a path, perhaps with a line end after it. -/
theorem isPackage_eq_true {t : Text} :
    isPackage t = true ↔ ∃ path, (∃ parts, IsPath parts path) ∧ IsEnded path t := by
  rw [isPackage, ← exists_isPath]
  constructor
  · exact fun h => ⟨_, h, Text.eq_dropLineEnd t⟩
  · rintro ⟨path, ⟨parts, hpath⟩, hended⟩
    rw [hended.dropLineEnd_eq (hpath.not_mem (by decide) rfl)]
    exact ⟨parts, hpath⟩

/-- An alias is an identifier, perhaps with a line end after it. -/
theorem isAlias_eq_true {t : Text} : isAlias t = true ↔ ∃ word, Legal word ∧ IsEnded word t := by
  rw [isAlias, isIdentifier_eq_true]
  constructor
  · exact fun h => ⟨_, h, Text.eq_dropLineEnd t⟩
  · rintro ⟨word, hword, hended⟩
    rw [hended.dropLineEnd_eq (hword.not_mem rfl)]
    exact hword

/-- A package that passes can be imported from exactly if no line end follows it and no part of it
is a keyword. -/
theorem importable_iff {t : Text} (h : isPackage t = true) :
    Importable t ↔ CodePoint.ofChar '\n' ∉ t ∧
      ∀ part ∈ Text.splitOn '.' t, part ∉ Identifier.keywords := by
  constructor
  · rintro ⟨parts, hpath, hkeywords⟩
    rw [← hpath.parts_eq]
    exact ⟨hpath.not_mem (by decide) rfl, hkeywords⟩
  · rintro ⟨hline, hkeywords⟩
    obtain ⟨path, ⟨parts, hpath⟩, hended⟩ := isPackage_eq_true.mp h
    obtain rfl := (hended.eq_iff (hpath.not_mem (by decide) rfl)).mpr hline
    refine ⟨parts, hpath, ?_⟩
    rwa [← hpath.parts_eq] at hkeywords

/-- An alias that passes is an identifier exactly if no line end follows it. -/
theorem legal_iff {t : Text} (h : isAlias t = true) : Legal t ↔ CodePoint.ofChar '\n' ∉ t := by
  obtain ⟨word, hword, hended⟩ := isAlias_eq_true.mp h
  constructor
  · exact fun hlegal => hlegal.not_mem rfl
  · intro hline
    obtain rfl := (hended.eq_iff (hword.not_mem rfl)).mpr hline
    exact hword

theorem exists_isPath_of_validated {config config' : Config} (h : config.validated = .ok config') :
    ∃ parts, IsPath parts (Text.dropLineEnd config.runtimePackage) :=
  exists_isPath.mpr (validated_eq_ok.mp h).1

/-- A configuration passes exactly if its package is a path and its aliases are different
identifiers, each perhaps with a line end after it. -/
theorem exists_validated {config : Config} :
    (∃ config', config.validated = .ok config') ↔
      (∃ path, (∃ parts, IsPath parts path) ∧ IsEnded path config.runtimePackage) ∧
        (∀ pair ∈ config.methodAliases, ∃ word, Legal word ∧ IsEnded word pair.2) ∧
        (config.methodAliases.map Prod.snd).Nodup := by
  rw [← isPackage_eq_true]
  simp only [← isAlias_eq_true]
  constructor
  · rintro ⟨config', h⟩
    obtain ⟨hpackage, haliases, -⟩ := validated_eq_ok.mp h
    exact ⟨hpackage, haliases.words, haliases.distinct⟩
  · rintro ⟨hpackage, hwords, hdistinct⟩
    exact ⟨config, validated_eq_ok.mpr ⟨hpackage, ⟨hwords, hdistinct⟩, rfl⟩⟩

end Config

end AbiBindings
