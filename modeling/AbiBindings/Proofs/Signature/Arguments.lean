import AbiBindings.Proofs.AbiType.Acceptance
import AbiBindings.Proofs.Signature.Normal
import AbiBindings.Proofs.Text.Blanks

/-!
Argument lists of written signatures. Whatever stands in parentheses spells a tuple or nothing: a
name of a type ends in a letter or a digit and an array in a bracket. So reading an argument list
gives a tuple, or the fault of one of the types in it.
-/

namespace AbiBindings

open Outcome

namespace AbiType

/-- Suffixes end in a bracket, unless there are none. -/
theorem Suffixed.getLast? {item type : AbiType} {w : Text} (h : Suffixed item w type) :
    w = [] ∧ type = item ∨ w.getLast? = some (CodePoint.ofChar ']') := by
  induction h with
  | done => exact .inl ⟨rfl, rfl⟩
  | anyLength _ ih =>
    right
    rcases ih with ⟨rfl, -⟩ | hlast
    · rfl
    · rw [List.getLast?_append, hlast]
      rfl
  | ofLength _ _ _ ih =>
    right
    rcases ih with ⟨rfl, -⟩ | hlast
    · rw [List.append_nil, List.getLast?_append]
      rfl
    · rw [List.getLast?_append, hlast]
      rfl

/-- The last character of the name of a type is no parenthesis. -/
theorem Named.getLast?_ne {word digits : Text} {width : Option Nat} {kind : Elementary}
    (h : Named word width kind) (hwidth : WidthText digits width) :
    (word ++ digits).getLast? ≠ some (CodePoint.ofChar ')') := by
  intro hlast
  rcases List.mem_append.mp (List.mem_of_getLast? hlast) with hword | hdigits
  · exact absurd (h.isLower.2 _ hword) (by decide)
  · exact absurd (hwidth.isDigit _ hdigits) (by decide)

/-- A text that ends in a parenthesis spells only tuples. -/
theorem Derives.exists_tuple {components : Json} {w : Text} {type : AbiType}
    (h : Derives components w type) (hlast : w.getLast? = some (CodePoint.ofChar ')')) :
    ∃ parts, type = tuple parts := by
  cases h with
  | suffixed hbase hsuffixed =>
    rcases hsuffixed.getLast? with ⟨rfl, rfl⟩ | hbracket
    · rw [List.append_nil] at hlast
      cases hbase with
      | named hnamed hwidth => exact absurd hlast (hnamed.getLast?_ne hwidth)
      | emptyList => exact ⟨_, rfl⟩
      | list => exact ⟨_, rfl⟩
      | tuple => exact ⟨_, rfl⟩
    · rw [List.getLast?_append, hbracket] at hlast
      exact absurd (Option.some.inj hlast) (by decide)

end AbiType

namespace Signature

structure IsArguments (arguments : Text) : Prop where
  opened : arguments.head? = some (CodePoint.ofChar '(')
  closed : arguments.getLast? = some (CodePoint.ofChar ')')
  oneLine : CodePoint.ofChar '\n' ∉ arguments

theorem isArguments_of_split? {signature name arguments : Text}
    (h : split? signature = some (name, arguments)) : IsArguments arguments := by
  simp only [split?] at h
  split at h
  · next hshape =>
    obtain ⟨-, rfl⟩ := Prod.mk.inj (Option.some.inj h)
    simp only [Bool.and_eq_true, beq_iff_eq, Bool.not_eq_true', List.contains_eq_mem,
      decide_eq_false_iff_not] at hshape
    exact ⟨hshape.1.1.2, hshape.1.2, hshape.2⟩
  · cases h

theorem IsArguments.notAhead {arguments : Text} (h : IsArguments arguments) :
    Text.NotAhead CodePoint.isBlank arguments := by
  rw [Text.NotAhead, h.opened]
  rfl

theorem IsArguments.notAhead_reverse {arguments : Text} (h : IsArguments arguments) :
    Text.NotAhead CodePoint.isBlank arguments.reverse := by
  rw [Text.NotAhead, List.head?_reverse, h.closed]
  rfl

/-- An argument list is read as a tuple. -/
theorem IsArguments.exists_tuple {arguments : Text} (h : IsArguments arguments)
    {components : Json} {path : Option Text} {type : AbiType}
    (hread : AbiType.parseText (Text.withoutBlanks arguments) components path = .ok type) :
    ∃ parts, type = .tuple parts := by
  have hderives := (AbiType.parse_eq_ok.mp hread).1
  rw [Text.trim_eq_self fun c => Text.isBlank_of_mem_withoutBlanks] at hderives
  apply hderives.exists_tuple
  rw [Text.getLast?_withoutBlanks h.notAhead_reverse, h.closed]

/-- A signature has a canonical form exactly if it splits and its argument list is read. -/
theorem normalize_eq_ok_iff {signature form : Text} :
    normalize signature = .ok form ↔
      ∃ name arguments parts, split? signature = some (name, arguments) ∧
        AbiType.parseText (Text.withoutBlanks arguments) .null none = .ok (.tuple parts) ∧
        canonical name (AbiType.typesOf parts) = form := by
  constructor
  · intro h
    rw [normalize] at h
    split at h
    · cases h
    · next name arguments hsplit =>
      obtain ⟨type, hread, h⟩ := bind_eq_ok.mp h
      obtain ⟨parts, rfl⟩ := (isArguments_of_split? hsplit).exists_tuple hread
      exact ⟨name, arguments, parts, hsplit, hread, Except.ok.inj h⟩
  · rintro ⟨name, arguments, parts, hsplit, hread, rfl⟩
    simp only [normalize, hsplit, hread, ok_bind, pure_eq_ok]

end Signature

end AbiBindings
