import AbiBindings.Artifact.Bytecode
import AbiBindings.Proofs.Text.Encodable
import AbiBindings.Proofs.Text.Run
import Mathlib.Data.List.Basic

/-!
The mark in front of bytecode. Digits may come with `0x` or `0X` in front or as they are, so putting
a mark in front of digits that have none, nor a blank, changes nothing.
-/

namespace AbiBindings

namespace Text

theorem trimEnd_append {s t : Text} (h : NotAhead CodePoint.isBlank s.reverse) :
    trimEnd (s ++ t) = s ++ trimEnd t := by
  rw [trimEnd, trimEnd, List.reverse_append, List.dropWhile_append]
  split
  · next hblank =>
    rw [List.isEmpty_iff.mp hblank, List.reverse_nil, List.append_nil, dropWhile_eq_self h,
      List.reverse_reverse]
  · rw [List.reverse_append, List.reverse_reverse]

theorem trimEnd_prefix (t : Text) : trimEnd t <+: t := by
  have hsuffix := List.dropWhile_suffix (l := t.reverse) CodePoint.isBlank
  rwa [← List.reverse_prefix, List.reverse_reverse] at hsuffix

end Text

namespace Bytecode

open Text (Encodable NotAhead)

/-- What may stand in front of digits. -/
def marks : List Text := ["0x", "0X"]

structure Unmarked (code : Text) : Prop where
  noBlank : NotAhead CodePoint.isBlank code
  noMark : ∀ mark ∈ marks, Text.startsWith code mark = false

variable {mark code : Text}

theorem encodable_of_mem_marks (h : mark ∈ marks) : Encodable mark := by
  rcases List.mem_pair.mp h with rfl | rfl <;> exact Text.encodable_ofString _

theorem Unmarked.digitsOf (h : Unmarked code) : digitsOf code = Text.trimEnd code := by
  have htrim : Text.trim code = Text.trimEnd code := by
    rw [Text.trim, Text.dropWhile_eq_self h.noBlank]
  have hstart : ∀ mark ∈ marks, Text.startsWith (Text.trimEnd code) mark = false := by
    intro mark hmark
    have hnot := h.noMark mark hmark
    rw [Text.startsWith, Bool.eq_false_iff, ne_eq, List.isPrefixOf_iff_prefix] at hnot ⊢
    exact fun hmarked => hnot (hmarked.trans (Text.trimEnd_prefix code))
  rw [Bytecode.digitsOf, htrim, hstart "0x" (by decide), hstart "0X" (by decide)]
  rfl

/-- Behind a mark stand the same digits. -/
theorem Unmarked.digitsOf_append (h : Unmarked code) (hmark : mark ∈ marks) :
    Bytecode.digitsOf (mark ++ code) = Bytecode.digitsOf code := by
  have hahead : NotAhead CodePoint.isBlank (mark ++ code) := by
    rcases List.mem_pair.mp hmark with rfl | rfl <;> rfl
  have hend : NotAhead CodePoint.isBlank mark.reverse := by
    rcases List.mem_pair.mp hmark with rfl | rfl <;> rfl
  have htrim : Text.trim (mark ++ code) = mark ++ Text.trimEnd code := by
    rw [Text.trim, Text.dropWhile_eq_self hahead, Text.trimEnd_append hend]
  rw [h.digitsOf, Bytecode.digitsOf, htrim]
  rcases List.mem_pair.mp hmark with rfl | rfl <;> rfl

theorem Unmarked.ofText?_append (h : Unmarked code) (hmark : mark ∈ marks) :
    ofText? (mark ++ code) = ofText? code := by
  rw [ofText?, ofText?, h.digitsOf_append hmark]

end Bytecode

end AbiBindings
