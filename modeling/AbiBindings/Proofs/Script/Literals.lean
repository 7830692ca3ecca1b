import AbiBindings.Client.Source
import AbiBindings.Proofs.Script.Scanner
import AbiBindings.Proofs.Text.Hexadecimal
import AbiBindings.Proofs.Text.Plain
import Mathlib.Data.List.Basic

/-!
Literals read back. Whatever a text holds, its quoted literal has it as its value, and so has the
form in which it stands between the three quotes of a documentation string, where other text may
stand around it.
-/

namespace AbiBindings.Script

open Text (singleQuote doubleQuote backslash quoteMark escapeIn quotedBody quoted)

namespace State

theorem step_eq_read {s : State} {c : CodePoint} (hc : 32 ≤ c.val) : s.step c = s.read c := by
  have hreturn : c ≠ CodePoint.ofChar '\r' := by
    rintro rfl
    exact absurd hc (by decide)
  have hnull : c.val ≠ 0 := by omega
  rw [step, if_neg (not_or_intro hreturn hnull)]

section

variable {lines : List Line} {line : Line} {d : Delimiter} {value : Text} {c : CodePoint}

theorem le_val_of_isHexDigit (h : c.isHexDigit = true) : 32 ≤ c.val := by
  simp only [CodePoint.isHexDigit, CodePoint.isDigit, Bool.or_eq_true, Bool.and_eq_true,
    decide_eq_true_eq] at h
  omega

/-- A code point that neither closes a literal nor escapes anything belongs to its value. -/
theorem readLiteral_raw {s : State} (hc : 32 ≤ c.val) (hmark : c ≠ d.mark)
    (hescape : c ≠ backslash) :
    s.readLiteral d value c = some { s with mode := .inside d (value ++ [c]) } := by
  have hline : c ≠ CodePoint.ofChar '\n' := by
    rintro rfl
    exact absurd hc (by decide)
  rw [readLiteral, if_neg hmark, if_neg hescape, if_neg (fun h => hline h.1)]

theorem step_backslash (hd : isQuote d.mark = true) :
    (State.mk lines line (.inside d value)).step backslash =
      some ⟨lines, line, .escape d value⟩ := by
  have hmark : backslash ≠ d.mark := by
    intro heq
    rw [← heq] at hd
    exact absurd hd (by decide)
  rw [step_eq_read (by decide), read_inside, readLiteral, if_neg hmark, if_pos rfl]

/-- Digits are gathered until there are as many as the escape calls for. -/
theorem run_digits {width : Nat} {digits more : Text} (hne : more ≠ [])
    (hwidth : digits.length + more.length = width) (hmore : ∀ c ∈ more, c.isHexDigit = true)
    (hvalue : Text.hexValue (digits ++ more) < 0x110000) :
    (State.mk lines line (.number d value width digits)).run more =
      some ⟨lines, line, .inside d (value ++ [.ofNat (Text.hexValue (digits ++ more))])⟩ := by
  induction more generalizing digits with
  | nil => exact absurd rfl hne
  | cons c rest ih =>
    rw [List.forall_mem_cons] at hmore
    rw [List.length_cons] at hwidth
    have hc := le_val_of_isHexDigit hmore.1
    have hspelled : (digits ++ [c]).length = digits.length + 1 := by simp
    rw [run_cons, step_eq_read hc, read_number, Mode.afterDigit, hmore.1]
    cases rest with
    | nil =>
      rw [List.length_nil] at hwidth
      rw [if_neg (by decide), if_neg (by omega), if_pos hvalue]
      rfl
    | cons next others =>
      rw [List.length_cons] at hwidth
      rw [if_neg (by decide), if_pos (by omega), Option.map_some, Option.bind_some]
      have happend : digits ++ c :: next :: others = digits ++ [c] ++ next :: others := by simp
      rw [happend] at hvalue ⊢
      apply ih (List.cons_ne_nil _ _) _ hmore.2 hvalue
      rw [List.length_cons]
      omega

end

end State

def Spells (d : Delimiter) (body value : Text) : Prop :=
  ∀ lines line before, (State.mk lines line (.inside d before)).run body =
    some ⟨lines, line, .inside d (before ++ value)⟩

section

variable {d : Delimiter}

theorem spells_nil : Spells d [] [] := by
  intro lines line before
  rw [List.append_nil]
  rfl

theorem Spells.append {body value more others : Text} (h : Spells d body value)
    (h' : Spells d more others) : Spells d (body ++ more) (value ++ others) := by
  intro lines line before
  rw [State.run_append, h, Option.bind_some, h', List.append_assoc]

theorem spells_flatMap {f : CodePoint → Text} {t : Text} (h : ∀ c ∈ t, Spells d (f c) [c]) :
    Spells d (t.flatMap f) t := by
  induction t with
  | nil => exact spells_nil
  | cons c rest ih =>
    rw [List.forall_mem_cons] at h
    exact h.1.append (ih h.2)

theorem spells_raw {c : CodePoint} (hc : 32 ≤ c.val) (hmark : c ≠ d.mark)
    (hescape : c ≠ backslash) : Spells d [c] [c] := by
  intro lines line before
  rw [State.run_cons, State.step_eq_read hc, State.read_inside,
    State.readLiteral_raw hc hmark hescape]
  rfl

/-- Text that stands for itself between double quotes. -/
def Unescaped (t : Text) : Prop :=
  ∀ c ∈ t, 32 ≤ c.val ∧ c ≠ doubleQuote ∧ c ≠ backslash

instance (t : Text) : Decidable (Unescaped t) :=
  inferInstanceAs (Decidable (∀ c ∈ t, 32 ≤ c.val ∧ c ≠ doubleQuote ∧ c ≠ backslash))

theorem Unescaped.le_val {t : Text} (h : Unescaped t) : ∀ c ∈ t, 32 ≤ c.val :=
  fun c hc => (h c hc).1

theorem Unescaped.spells {t : Text} (h : Unescaped t) {long : Bool} :
    Spells ⟨doubleQuote, long⟩ t t := by
  have hall : Spells ⟨doubleQuote, long⟩ (t.flatMap fun c => [c]) t := by
    apply spells_flatMap
    intro c hc
    obtain ⟨hval, hmark, hescape⟩ := h c hc
    exact spells_raw hval hmark hescape
  rwa [List.flatMap_singleton'] at hall

theorem unescaped_of_plain {t : Text} (h : Text.Plain t) : Unescaped t := by
  intro c hc
  have hplain := h c hc
  refine ⟨CodePoint.le_val_of_isPlain hplain, ?_, ?_⟩
  · rintro rfl
    exact absurd hplain (by decide)
  · rintro rfl
    exact absurd hplain (by decide)

theorem spells_escape (hd : isQuote d.mark = true) {e c : CodePoint} (he : 32 ≤ e.val)
    (h : ∀ value, Mode.afterBackslash d value e = some (.inside d (value ++ [c]))) :
    Spells d [backslash, e] [c] := by
  intro lines line before
  rw [State.run_cons, State.step_backslash hd, Option.bind_some, State.run_cons,
    State.step_eq_read he, State.read_escape, h]
  rfl

theorem spells_number (hd : isQuote d.mark = true) {e c : CodePoint} {width : Nat}
    (he : 32 ≤ e.val) (hwidth : 0 < width) (hc : c.val < 16 ^ width)
    (h : ∀ value, Mode.afterBackslash d value e = some (.number d value width [])) :
    Spells d (backslash :: e :: Text.ofHex width c.val) [c] := by
  intro lines line before
  have hvalue := Text.hexValue_ofHex hc
  have hdigits : Text.ofHex width c.val ≠ [] := by
    rw [← List.length_pos_iff, Text.length_ofHex]
    exact hwidth
  have hspelled : CodePoint.ofNat c.val = c := CodePoint.ext (CodePoint.val_ofNat c.lt)
  rw [State.run_cons, State.step_backslash hd, Option.bind_some, State.run_cons,
    State.step_eq_read he, State.read_escape, h, Option.map_some, Option.bind_some,
    State.run_digits hdigits]
  · rw [List.nil_append, hvalue, hspelled]
  · simp
  · exact fun c hc => Text.isHexDigit_of_mem_ofHex hc
  · rw [List.nil_append, hvalue]
    exact c.lt

end

inductive Escaped (mark c : CodePoint) : Text → Prop
  /-- The backslash and the quote mark after a backslash. -/
  | mark : c = backslash ∨ c = mark → Escaped mark c [backslash, c]
  /-- Three controls by letter. -/
  | letter {e : CodePoint} :
      (e, c) ∈ [(CodePoint.ofChar 't', CodePoint.ofChar '\t'), ('n', '\n'), ('r', '\r')] →
      Escaped mark c [backslash, e]
  /-- Whatever else is not printable by number. -/
  | number {e : CodePoint} {width : Nat} :
      (e, width) ∈ [(CodePoint.ofChar 'x', 2), ('u', 4), ('U', 8)] → c.val < 16 ^ width →
      Escaped mark c (backslash :: e :: Text.ofHex width c.val)
  /-- The rest as it is. -/
  | raw : 32 ≤ c.val → c ≠ backslash → c ≠ mark → Escaped mark c [c]

theorem escaped_escapeIn (mark c : CodePoint) : Escaped mark c (escapeIn mark c) := by
  unfold escapeIn
  split
  · next hspecial => exact .mark hspecial
  next hspecial =>
  rw [not_or] at hspecial
  split
  · next htab =>
    rw [htab]
    exact Escaped.letter (e := 't') (by decide)
  split
  · next hline =>
    rw [hline]
    exact Escaped.letter (e := 'n') (by decide)
  split
  · next hreturn =>
    rw [hreturn]
    exact Escaped.letter (e := 'r') (by decide)
  split
  · next hprintable =>
    have hc : 32 ≤ c.val := by
      unfold CodePoint.isPrintable at hprintable
      split at hprintable
      · exact of_decide_eq_true hprintable
      · omega
    exact .raw hc hspecial.1 hspecial.2
  split
  · next hsmall => exact Escaped.number (e := 'x') (by decide) (by omega)
  split
  · next hmiddle => exact Escaped.number (e := 'u') (by decide) (by omega)
  · have hc := c.lt
    exact Escaped.number (e := 'U') (by decide) (by omega)

theorem eq_of_isQuote {mark : CodePoint} (h : isQuote mark = true) :
    mark = singleQuote ∨ mark = doubleQuote := by
  simpa only [isQuote, Bool.or_eq_true, decide_eq_true_eq] using h

theorem isQuote_quoteMark (t : Text) : isQuote (quoteMark t) = true := by
  unfold quoteMark
  split <;> rfl

section

variable {mark c : CodePoint} {body : Text}

/-- What is written for a code point stands for it, unless the code point itself would close the
literal. -/
theorem Escaped.spells {d : Delimiter} (h : Escaped mark c body) (hmark : isQuote mark = true)
    (hd : isQuote d.mark = true) (hraw : c ≠ d.mark ∨ body ≠ [c]) : Spells d body [c] := by
  cases h with
  | mark hspecial =>
    rcases hspecial with rfl | rfl
    · exact spells_escape hd (by decide) fun _ => rfl
    · rcases eq_of_isQuote hmark with rfl | rfl
      · exact spells_escape hd (by decide) fun _ => rfl
      · exact spells_escape hd (by decide) fun _ => rfl
  | letter hletter =>
    simp only [List.mem_cons, Prod.mk.injEq, List.not_mem_nil, or_false] at hletter
    rcases hletter with ⟨rfl, rfl⟩ | ⟨rfl, rfl⟩ | ⟨rfl, rfl⟩
    · exact spells_escape hd (by decide) fun _ => rfl
    · exact spells_escape hd (by decide) fun _ => rfl
    · exact spells_escape hd (by decide) fun _ => rfl
  | number hnumber hc =>
    simp only [List.mem_cons, Prod.mk.injEq, List.not_mem_nil, or_false] at hnumber
    rcases hnumber with ⟨rfl, rfl⟩ | ⟨rfl, rfl⟩ | ⟨rfl, rfl⟩
    · exact spells_number hd (by decide) (by decide) hc fun _ => rfl
    · exact spells_number hd (by decide) (by decide) hc fun _ => rfl
    · exact spells_number hd (by decide) (by decide) hc fun _ => rfl
  | raw hc hescape _ =>
    have hclose : c ≠ d.mark := hraw.resolve_right (not_not_intro rfl)
    exact spells_raw hc hclose hescape

/-- The mark does not stand in front, where it would close the literal. -/
theorem Escaped.head (h : Escaped mark c body) (hmark : isQuote mark = true) :
    ∃ first rest, body = first :: rest ∧ first ≠ mark := by
  have hescape : backslash ≠ mark := by
    rintro rfl
    exact absurd hmark (by decide)
  cases h with
  | mark _ => exact ⟨_, _, rfl, hescape⟩
  | letter _ => exact ⟨_, _, rfl, hescape⟩
  | number _ _ => exact ⟨_, _, rfl, hescape⟩
  | raw _ _ hne => exact ⟨_, _, rfl, hne⟩

/-- A double quote is written only for itself, and as it is, where the mark is a single one. -/
theorem Escaped.eq_doubleQuote (h : Escaped mark c body) (hc : mark = doubleQuote → c ≠ doubleQuote)
    (hmem : doubleQuote ∈ body) : c = doubleQuote ∧ body = [doubleQuote] := by
  have hescape : doubleQuote ≠ backslash := by decide
  cases h with
  | mark hspecial =>
    rw [List.mem_cons, List.mem_singleton, or_iff_right hescape] at hmem
    subst hmem
    rcases hspecial with heq | heq
    · exact absurd heq hescape
    · exact absurd rfl (hc heq.symm)
  | letter hletter =>
    simp only [List.mem_cons, Prod.mk.injEq, List.not_mem_nil, or_false] at hletter hmem
    rcases hletter with ⟨rfl, -⟩ | ⟨rfl, -⟩ | ⟨rfl, -⟩ <;> exact absurd hmem (by decide)
  | number hnumber _ =>
    simp only [List.mem_cons, Prod.mk.injEq, List.not_mem_nil, or_false] at hnumber hmem
    rcases hmem with hmem | hmem | hmem
    · exact absurd hmem hescape
    · rcases hnumber with ⟨rfl, -⟩ | ⟨rfl, -⟩ | ⟨rfl, -⟩ <;> exact absurd hmem (by decide)
    · have hdigit := Text.isHexDigit_of_mem_ofHex hmem
      exact absurd hdigit (by decide)
  | raw _ _ _ =>
    rw [List.mem_singleton] at hmem
    rw [← hmem]
    exact ⟨rfl, rfl⟩

end

theorem spells_quotedBody (t : Text) : Spells ⟨quoteMark t, false⟩ (quotedBody t) t := by
  apply spells_flatMap
  intro c _
  apply (escaped_escapeIn (quoteMark t) c).spells (isQuote_quoteMark t) (isQuote_quoteMark t)
  by_cases hc : c = quoteMark t
  · right
    rw [escapeIn, if_pos (.inr hc)]
    simp
  · exact .inl hc

theorem head_quotedBody (t : Text) : (quotedBody t).head? ≠ some (quoteMark t) := by
  cases t with
  | nil => exact Option.some_ne_none _ |>.symm
  | cons c rest =>
    obtain ⟨first, others, hbody, hfirst⟩ :=
      (escaped_escapeIn (quoteMark (c :: rest)) c).head (isQuote_quoteMark (c :: rest))
    rw [quotedBody, List.flatMap_cons, hbody, List.cons_append, List.head?_cons]
    simpa using hfirst

/-- The double quote is the mark only of a text without one. -/
theorem not_mem_of_quoteMark {t : Text} (h : quoteMark t = doubleQuote) : doubleQuote ∉ t := by
  unfold quoteMark at h
  split at h
  · next hquotes =>
    simp only [Bool.and_eq_true, Bool.not_eq_true', List.contains_eq_mem,
      decide_eq_false_iff_not] at hquotes
    exact hquotes.2
  · exact absurd h (by decide)

theorem flatMap_eq_self {t : Text} (h : doubleQuote ∉ t) :
    (t.flatMap fun c => if c = doubleQuote then ("\\\"" : Text) else [c]) = t := by
  have hsame : ∀ c ∈ t, (if c = doubleQuote then ("\\\"" : Text) else [c]) = [c] := by
    intro c hc
    apply if_neg
    rintro rfl
    exact h hc
  rw [List.flatMap_congr hsame, List.flatMap_singleton']

/-- Between three quotes a text is written as in its own literal, but for double quotes, which get
a backslash there whatever the mark of that literal is. -/
theorem spells_docText (t : Text) : Spells ⟨doubleQuote, true⟩ (Client.docText t) t := by
  rw [Client.docText, quotedBody, List.flatMap_assoc]
  apply spells_flatMap
  intro c hc
  have hescaped := escaped_escapeIn (quoteMark t) c
  have hmark : quoteMark t = doubleQuote → c ≠ doubleQuote := by
    rintro hmark rfl
    exact not_mem_of_quoteMark hmark hc
  by_cases hmem : doubleQuote ∈ escapeIn (quoteMark t) c
  · obtain ⟨rfl, hbody⟩ := hescaped.eq_doubleQuote hmark hmem
    rw [hbody]
    exact spells_escape (by decide) (by decide) fun _ => rfl
  · rw [flatMap_eq_self hmem]
    apply hescaped.spells (isQuote_quoteMark t) (by decide)
    by_cases heq : c = doubleQuote
    · right
      intro hbody
      rw [hbody, heq] at hmem
      exact hmem (List.mem_singleton_self _)
    · exact .inl heq

namespace State

section

variable {lines : List Line} {line : Line} {mark c : CodePoint} {body value rest : Text}

theorem le_val_of_isQuote (hmark : isQuote mark = true) : 32 ≤ mark.val := by
  rcases eq_of_isQuote hmark with rfl | rfl <;> decide

theorem step_quote (hmark : isQuote mark = true) (hline : endsInWord line = false) :
    (State.mk lines line .code).step mark = some ⟨lines, line, .opened mark⟩ := by
  rw [step_eq_read (le_val_of_isQuote hmark), read_code, readCode, if_pos hmark, hline]
  rcases eq_of_isQuote hmark with rfl | rfl <;> rfl

/-- A literal between single marks ends at the second one, if no third one follows at once. -/
theorem run_short (hmark : isQuote mark = true) (hhead : body.head? ≠ some mark)
    (hbody : Spells ⟨mark, false⟩ body value) (hline : endsInWord line = false)
    (hrest : Text.NotAhead isQuote rest) (hne : rest ≠ []) :
    (State.mk lines line .code).run (mark :: body ++ [mark] ++ rest) =
      (State.mk lines (line ++ [Token.literal value]) .code).run rest := by
  have hval := le_val_of_isQuote hmark
  rw [List.append_assoc, List.cons_append, run_cons, step_quote hmark hline, Option.bind_some]
  cases body with
  | nil =>
    have hempty := hbody [] [] []
    simp only [run_nil, List.nil_append, Option.some.injEq, State.mk.injEq, Mode.inside.injEq,
      true_and] at hempty
    obtain ⟨c, others, rfl⟩ := List.exists_cons_of_ne_nil hne
    have hc : c ≠ mark := by
      rintro rfl
      rw [Text.notAhead_cons, hmark] at hrest
      exact absurd hrest (by decide)
    have hstep : (State.mk lines line (.openedTwice mark)).step c =
        (State.mk lines (line ++ [Token.literal []]) .code).step c := by
      rw [step, step, read_openedTwice, if_neg hc, read_code]
    rw [← hempty, List.nil_append, List.singleton_append, run_cons, step_eq_read hval, read_opened,
      if_pos rfl, Option.bind_some, run_cons, run_cons, hstep]
  | cons first others =>
    have hfirst : first ≠ mark := by
      rintro rfl
      exact hhead rfl
    have hinside : (State.mk lines line (.opened mark)).run (first :: others ++ ([mark] ++ rest)) =
        (State.mk lines line (.inside ⟨mark, false⟩ [])).run
          (first :: others ++ ([mark] ++ rest)) := by
      rw [List.cons_append, run_cons, run_cons, step, step, read_opened, if_neg hfirst,
        read_inside]
      rfl
    rw [hinside, run_append, hbody, Option.bind_some, List.singleton_append, run_cons,
      step_eq_read hval, read_inside, readLiteral, if_pos rfl]
    rfl

/-- A literal between three marks on either side ends at the first three that stand together. -/
theorem run_long (hmark : isQuote mark = true) (hbody : Spells ⟨mark, true⟩ body value)
    (hline : endsInWord line = false) :
    (State.mk lines line .code).run ([mark, mark, mark] ++ body ++ [mark, mark, mark] ++ rest) =
      (State.mk lines (line ++ [Token.literal value]) .code).run rest := by
  have hval := le_val_of_isQuote hmark
  have hopen : (State.mk lines line .code).run [mark, mark, mark] =
      some ⟨lines, line, .inside ⟨mark, true⟩ []⟩ := by
    rw [run_cons, step_quote hmark hline, Option.bind_some, run_cons, step_eq_read hval,
      read_opened, if_pos rfl, Option.bind_some, run_cons, step_eq_read hval, read_openedTwice,
      if_pos rfl]
    rfl
  have hclose : (State.mk lines line (.inside ⟨mark, true⟩ value)).run [mark, mark, mark] =
      some ⟨lines, line ++ [Token.literal value], .code⟩ := by
    rw [run_cons, step_eq_read hval, read_inside, readLiteral, if_pos rfl, if_pos rfl,
      Option.bind_some, run_cons, step_eq_read hval, read_closing, if_pos rfl,
      if_neg (by decide), Option.bind_some, run_cons, step_eq_read hval, read_closing, if_pos rfl]
    rfl
  rw [List.append_assoc, List.append_assoc, run_append, hopen, Option.bind_some, run_append, hbody,
    Option.bind_some, List.nil_append, run_append, hclose]
  rfl

end

end State

end AbiBindings.Script
