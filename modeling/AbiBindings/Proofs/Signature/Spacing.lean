import Mathlib.Logic.Relation
import AbiBindings.Proofs.Signature.Arguments

/-!
Blanks in written signatures. Blanks may be put in or taken out anywhere around the words and marks
of a signature, and its canonical form stays the same, as long as the argument list stays on one
line: blanks before the name, after it and after the list are trimmed, and those in the list are
taken out before it is read, but a list that runs over a line end is no argument list to begin with.

What blanks cannot change is the name at the front and the rest without its blanks, so these are
what an edit keeps.
-/

namespace AbiBindings.Signature

open Outcome

/-- Whether the place between two stretches of text is inside a word. -/
def InsideWord (before after : Text) : Prop :=
  before.getLast?.any isNamePart = true ∧ after.head?.any isNamePart = true

instance (before after : Text) : Decidable (InsideWord before after) :=
  inferInstanceAs (Decidable (_ ∧ _))

/-- One blank more between the words and marks of a text, or one blank less anywhere. -/
inductive Respaced : Text → Text → Prop
  | more {before after : Text} {blank : CodePoint} : blank.isBlank = true →
      ¬InsideWord before after → Respaced (before ++ after) (before ++ blank :: after)
  | less {before after : Text} {blank : CodePoint} : blank.isBlank = true →
      Respaced (before ++ blank :: after) (before ++ after)

/-- The text from its first opening parenthesis to its last closing one. -/
def parenthesized (t : Text) : Text :=
  ((t.dropWhile (· != CodePoint.ofChar '(')).reverse.dropWhile
    (· != CodePoint.ofChar ')')).reverse

theorem IsName.exists_cons {name : Text} (h : IsName name) :
    ∃ first others, name = first :: others ∧ isNamePart first = true := by
  cases name with
  | nil => exact absurd h.start (by decide)
  | cons first others => exact ⟨first, others, rfl, h.part first List.mem_cons_self⟩

/-- No blank is part of a name. -/
theorem isNamePart_of_isBlank {c : CodePoint} (h : c.isBlank = true) : isNamePart c = false := by
  rw [Bool.eq_false_iff]
  intro hpart
  rw [isBlank_of_isNamePart hpart] at h
  cases h

/-- A text with a name at the front, and after it what is `list` without its blanks. -/
def Laid (name list s : Text) : Prop :=
  ∃ front rest, s = front ++ name ++ rest ∧ (∀ c ∈ front, c.isBlank = true) ∧
    Text.withoutBlanks rest = list

section

variable {name list s s' : Text}

theorem laid_of_split? {arguments : Text} (h : split? s = some (name, arguments)) :
    Laid name (Text.withoutBlanks arguments) s := by
  obtain ⟨front, back, heq, hfront, hback, -, -⟩ := Text.exists_surround s
  simp only [split?] at h
  split at h
  · obtain ⟨rfl, rfl⟩ := Prod.mk.inj (Option.some.inj h)
    refine ⟨front, (Text.trim s).dropWhile isNamePart ++ back, ?_, hfront, ?_⟩
    · rw [List.append_assoc, ← List.append_assoc _ _ back, List.takeWhile_append_dropWhile,
        ← List.append_assoc]
      exact heq
    · rw [Text.withoutBlanks_append, Text.withoutBlanks_eq_nil hback, List.append_nil,
        Text.withoutBlanks_dropWhile]
  · cases h

/-- A place in a text with a name is before the name, after it, or between two of its
characters. -/
theorem place_cases {before after front rest : Text}
    (h : before ++ after = front ++ name ++ rest) :
    (∃ a, front = before ++ a ∧ after = a ++ (name ++ rest)) ∨
      (∃ a, before = front ++ name ++ a ∧ rest = a ++ after) ∨
      ∃ c first d, name = c ++ first :: d ∧ c ≠ [] ∧ before = front ++ c ∧
        after = first :: d ++ rest := by
  rw [List.append_assoc] at h
  rcases List.append_eq_append_iff.mp h with hfront | ⟨c, hbefore, hc⟩
  · exact .inl hfront
  rcases List.append_eq_append_iff.mp hc with ⟨a, hname, hrest⟩ | ⟨d, hname, hafter⟩
  · right; left
    exact ⟨a, by rw [hbefore, hname, List.append_assoc], hrest⟩
  rcases eq_or_ne c [] with rfl | hne
  · left
    rw [List.append_nil] at hbefore
    rw [List.nil_append] at hname
    exact ⟨[], by rw [hbefore, List.append_nil], by rw [hafter, hname, List.nil_append]⟩
  right
  cases d with
  | nil =>
    left
    rw [List.append_nil] at hname
    refine ⟨[], by rw [hbefore, hname, List.append_nil], ?_⟩
    rw [hafter, List.nil_append, List.nil_append]
  | cons first d =>
    right
    exact ⟨c, first, d, hname, hne, hbefore, hafter⟩

/-- A blank more leaves the name whole, since it does not stand inside a word. -/
theorem Laid.more {before after : Text} {blank : CodePoint} (hname : IsName name)
    (hblank : blank.isBlank = true) (hplace : ¬InsideWord before after)
    (h : Laid name list (before ++ after)) : Laid name list (before ++ blank :: after) := by
  obtain ⟨front, rest, heq, hfront, hrest⟩ := h
  rcases place_cases heq with ⟨a, rfl, rfl⟩ | ⟨a, rfl, rfl⟩ | ⟨c, first, d, rfl, hc, rfl, rfl⟩
  · refine ⟨before ++ blank :: a, rest, by simp, ?_, hrest⟩
    rw [List.forall_mem_append] at hfront ⊢
    exact ⟨hfront.1, List.forall_mem_cons.mpr ⟨hblank, hfront.2⟩⟩
  · refine ⟨front, a ++ blank :: after, by simp, hfront, ?_⟩
    rw [← hrest, Text.withoutBlanks_append, Text.withoutBlanks_cons hblank,
      Text.withoutBlanks_append]
  · obtain ⟨start, last, rfl⟩ := (List.eq_nil_or_concat c).resolve_left hc
    have hlast : isNamePart last = true := hname.part last (by simp)
    have hfirst : isNamePart first = true := hname.part first (by simp)
    exact absurd ⟨by simp [hlast], by simp [hfirst]⟩ hplace

/-- A blank less is one that stood before the name or after it. -/
theorem Laid.less {before after : Text} {blank : CodePoint} (hname : IsName name)
    (hblank : blank.isBlank = true) (h : Laid name list (before ++ blank :: after)) :
    Laid name list (before ++ after) := by
  have hnot : blank ∉ name := by
    intro hmem
    exact absurd (hname.part blank hmem) (Bool.eq_false_iff.mp (isNamePart_of_isBlank hblank))
  obtain ⟨front, rest, heq, hfront, hrest⟩ := h
  rcases place_cases heq with ⟨a, rfl, hafter⟩ | ⟨a, rfl, rfl⟩ | ⟨c, first, d, rfl, -, rfl, hafter⟩
  · cases a with
    | nil =>
      obtain ⟨first, others, rfl, -⟩ := hname.exists_cons
      obtain ⟨rfl, -⟩ := List.cons.inj hafter
      exact absurd List.mem_cons_self hnot
    | cons first a =>
      obtain ⟨rfl, rfl⟩ := List.cons.inj hafter
      refine ⟨before ++ a, rest, by simp, ?_, hrest⟩
      rw [List.forall_mem_append] at hfront ⊢
      exact ⟨hfront.1, fun c hc => hfront.2 c (List.mem_cons_of_mem _ hc)⟩
  · refine ⟨front, a ++ after, by simp, hfront, ?_⟩
    rw [← hrest, Text.withoutBlanks_append, Text.withoutBlanks_append,
      Text.withoutBlanks_cons hblank]
  · obtain ⟨rfl, -⟩ := List.cons.inj hafter
    exact absurd (List.mem_append_right c List.mem_cons_self) hnot

theorem Laid.respaced (hname : IsName name) (h : Laid name list s)
    (hstep : Respaced s s') : Laid name list s' := by
  cases hstep with
  | more hblank hplace => exact h.more hname hblank hplace
  | less hblank => exact h.less hname hblank

theorem Laid.respaced_all (hname : IsName name) (h : Laid name list s)
    (hsteps : Relation.ReflTransGen Respaced s s') : Laid name list s' := by
  induction hsteps with
  | refl => exact h
  | tail _ hstep ih => exact ih.respaced hname hstep

end

theorem parenthesized_surround {front core back : Text} (hfront : CodePoint.ofChar '(' ∉ front)
    (hback : CodePoint.ofChar ')' ∉ back) (hhead : core.head? = some (CodePoint.ofChar '('))
    (hlast : core.getLast? = some (CodePoint.ofChar ')')) :
    parenthesized (front ++ core ++ back) = core := by
  have hopen : ∀ c ∈ front, (c != CodePoint.ofChar '(') = true := by
    intro c hc
    rw [bne_iff_ne]
    rintro rfl
    exact hfront hc
  have hclose : ∀ c ∈ back.reverse, (c != CodePoint.ofChar ')') = true := by
    intro c hc
    rw [bne_iff_ne]
    rintro rfl
    exact hback (List.mem_reverse.mp hc)
  have hstart : Text.NotAhead (· != CodePoint.ofChar '(') (core ++ back) := by
    rw [Text.NotAhead, List.head?_append, hhead]
    rfl
  have hend : Text.NotAhead (· != CodePoint.ofChar ')') core.reverse := by
    rw [Text.NotAhead, List.head?_reverse, hlast]
    rfl
  rw [List.append_assoc, parenthesized, Text.dropWhile_run hopen hstart, List.reverse_append,
    Text.dropWhile_run hclose hend, List.reverse_reverse]

section

variable {name core front gap back : Text} (hname : IsName name)
  (hfront : ∀ c ∈ front, c.isBlank = true) (hgap : ∀ c ∈ gap, c.isBlank = true)
  (hback : ∀ c ∈ back, c.isBlank = true) (hhead : core.head? = some (CodePoint.ofChar '('))
  (hlast : core.getLast? = some (CodePoint.ofChar ')'))

include hname hfront hback hlast

theorem trim_spaced :
    Text.trim (front ++ name ++ (gap ++ core ++ back)) = name ++ (gap ++ core) := by
  have hshape : front ++ name ++ (gap ++ core ++ back) =
      front ++ (name ++ (gap ++ core)) ++ back := by
    simp only [List.append_assoc]
  obtain ⟨first, others, rfl, hfirst⟩ := hname.exists_cons
  rw [hshape]
  apply Text.trim_surround hfront hback
  · exact List.cons_ne_nil first _
  · exact isBlank_of_isNamePart hfirst
  · rw [List.reverse_append, List.reverse_append, Text.NotAhead, List.head?_append,
      List.head?_append, List.head?_reverse, hlast]
    rfl

include hgap hhead

theorem parenthesized_spaced :
    parenthesized (front ++ name ++ (gap ++ core ++ back)) = core := by
  rw [← List.append_assoc, ← List.append_assoc]
  refine parenthesized_surround ?_ ?_ hhead hlast
  · rw [List.mem_append, List.mem_append]
    rintro ((hmem | hmem) | hmem)
    · exact absurd (hfront _ hmem) (by decide)
    · exact absurd (hname.part _ hmem) (by decide)
    · exact absurd (hgap _ hmem) (by decide)
  · intro hmem
    exact absurd (hback _ hmem) (by decide)

/-- A name and an argument list with blanks around both split into the two, unless the list runs
over a line end. -/
theorem split?_spaced :
    split? (front ++ name ++ (gap ++ core ++ back)) =
      if CodePoint.ofChar '\n' ∈ core then none else some (name, core) := by
  have hstop : Text.NotAhead isNamePart (gap ++ core) := by
    cases gap with
    | nil =>
      rw [List.nil_append, Text.NotAhead, hhead]
      rfl
    | cons first others => exact isNamePart_of_isBlank (hgap first List.mem_cons_self)
  have hstart : Text.NotAhead CodePoint.isBlank core := by
    rw [Text.NotAhead, hhead]
    rfl
  rw [split?, trim_spaced hname hfront hback hlast, Text.takeWhile_run hname.part hstop,
    Text.dropWhile_run hname.part hstop, Text.dropWhile_run hgap hstart]
  by_cases hline : CodePoint.ofChar '\n' ∈ core
  · simp [hline]
  · simp [hname.start, hhead, hlast, hline]

end

/-- A text with a name and then what is an argument list without its blanks splits into these two,
unless the list runs over a line end. -/
theorem Laid.split?_eq {name list s : Text} (h : Laid name list s) (hname : IsName name)
    (hopen : list.head? = some (CodePoint.ofChar '('))
    (hclose : list.getLast? = some (CodePoint.ofChar ')')) :
    Text.withoutBlanks (parenthesized s) = list ∧
      split? s =
        if CodePoint.ofChar '\n' ∈ parenthesized s then none else some (name, parenthesized s) := by
  obtain ⟨front, rest, rfl, hfront, hrest⟩ := h
  obtain ⟨gap, back, heq, hgap, hback, hstart, hend⟩ := Text.exists_surround rest
  generalize Text.trim rest = core at heq hstart hend
  rw [heq, Text.withoutBlanks_surround hgap hback] at hrest
  have hhead : core.head? = some (CodePoint.ofChar '(') := by
    rw [← Text.head?_withoutBlanks hstart, hrest, hopen]
  have hlast : core.getLast? = some (CodePoint.ofChar ')') := by
    rw [← Text.getLast?_withoutBlanks hend, hrest, hclose]
  rw [heq, parenthesized_spaced hname hfront hgap hback hhead hlast]
  exact ⟨hrest, split?_spaced hname hfront hgap hback hhead hlast⟩

/-- However a signature is respaced, its canonical form stays the same as long as its argument list
is on one line; and over a line end in it the signature is refused. -/
theorem normalize_respaced {signature signature' form : Text}
    (h : normalize signature = .ok form)
    (hsteps : Relation.ReflTransGen Respaced signature signature') :
    normalize signature' =
      if CodePoint.ofChar '\n' ∈ parenthesized signature' then
        .error (.config (.notSignature signature'))
      else .ok form := by
  obtain ⟨name, arguments, parts, hsplit, hread, hform⟩ := normalize_eq_ok_iff.mp h
  have hname := isName_of_split? hsplit
  have harguments := isArguments_of_split? hsplit
  have hopen : (Text.withoutBlanks arguments).head? = some (CodePoint.ofChar '(') := by
    rw [Text.head?_withoutBlanks harguments.notAhead, harguments.opened]
  have hclose : (Text.withoutBlanks arguments).getLast? = some (CodePoint.ofChar ')') := by
    rw [Text.getLast?_withoutBlanks harguments.notAhead_reverse, harguments.closed]
  have hlaid := (laid_of_split? hsplit).respaced_all hname hsteps
  obtain ⟨hlist, hsplit'⟩ := hlaid.split?_eq hname hopen hclose
  split
  · next hline =>
    rw [if_pos hline] at hsplit'
    rw [normalize, hsplit']
  · next hline =>
    rw [if_neg hline] at hsplit'
    rw [← hlist] at hread
    exact normalize_eq_ok_iff.mpr ⟨name, _, parts, hsplit', hread, hform⟩

/-- A tab before the argument list and no blank in a word of it. -/
theorem normalize_respaced_tab :
    normalize "pay\t(uint,bool)" = .ok "pay(uint256,bool)" := by
  have htab : Respaced "pay(u int,bool)" "pay\t(u int,bool)" :=
    @Respaced.more "pay" "(u int,bool)" '\t' rfl (by decide)
  have hblank : Respaced "pay\t(u int,bool)" "pay\t(uint,bool)" :=
    @Respaced.less "pay\t(u" "int,bool)" ' ' rfl
  exact @normalize_respaced _ _ "pay(uint256,bool)" rfl (.tail (.single htab) hblank)

/-- A line end after a comma makes a signature one that is refused. -/
theorem normalize_respaced_line_end :
    normalize "f(uint,bool)" = .ok "f(uint256,bool)" ∧
      Respaced "f(uint,bool)" "f(uint,\nbool)" ∧
      normalize "f(uint,\nbool)" = .error (.config (.notSignature "f(uint,\nbool)")) :=
  ⟨rfl, @Respaced.more "f(uint," "bool)" '\n' rfl (by decide), rfl⟩

end AbiBindings.Signature
