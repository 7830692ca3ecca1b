import AbiBindings.Proofs.Script.Literals

/-!
Lines put together from pieces. A piece of text reads as tokens whatever stands before and behind
it on its line, as long as no quote mark touches a word or another literal, and a line of such
pieces reads as the tokens of all of them.
-/

namespace AbiBindings.Script

open Text (Plain NotAhead singleQuote doubleQuote quoteMark quotedBody quoted)

def lineEnds (t : Text) : Nat := t.count (CodePoint.ofChar '\n')

theorem lineEnds_append (s t : Text) : lineEnds (s ++ t) = lineEnds s + lineEnds t :=
  List.count_append

theorem lineEnds_eq_zero {t : Text} (h : ∀ c ∈ t, 32 ≤ c.val) : lineEnds t = 0 := by
  apply List.count_eq_zero_of_not_mem
  intro hmem
  exact absurd (h _ hmem) (by decide)

theorem le_val_of_plain {t : Text} (h : Plain t) : ∀ c ∈ t, 32 ≤ c.val :=
  (unescaped_of_plain h).le_val

theorem Escaped.le_val {mark c : CodePoint} {body : Text} (h : Escaped mark c body)
    (hmark : isQuote mark = true) : ∀ e ∈ body, 32 ≤ e.val := by
  have hescape : 32 ≤ Text.backslash.val := by decide
  cases h with
  | mark hspecial =>
    have hc : 32 ≤ c.val := by
      rcases hspecial with rfl | rfl
      · exact hescape
      · exact State.le_val_of_isQuote hmark
    simp [hescape, hc]
  | letter hletter =>
    simp only [List.mem_cons, Prod.mk.injEq, List.not_mem_nil, or_false] at hletter
    rcases hletter with ⟨rfl, -⟩ | ⟨rfl, -⟩ | ⟨rfl, -⟩ <;> decide
  | number hnumber _ =>
    simp only [List.forall_mem_cons]
    refine ⟨hescape, ?kind, ?digits⟩
    case kind =>
      simp only [List.mem_cons, Prod.mk.injEq, List.not_mem_nil, or_false] at hnumber
      rcases hnumber with ⟨rfl, -⟩ | ⟨rfl, -⟩ | ⟨rfl, -⟩ <;> decide
    case digits => exact fun e he => State.le_val_of_isHexDigit (Text.isHexDigit_of_mem_ofHex he)
  | raw hc _ _ => simpa using hc

theorem le_val_quotedBody (t : Text) : ∀ c ∈ quotedBody t, 32 ≤ c.val := by
  rw [quotedBody, Text.forall_mem_flatMap]
  intro c _
  exact (escaped_escapeIn (quoteMark t) c).le_val (isQuote_quoteMark t)

theorem le_val_docText (t : Text) : ∀ c ∈ Client.docText t, 32 ≤ c.val := by
  rw [Client.docText, Text.forall_mem_flatMap]
  intro c hc
  split
  · decide
  · simpa using le_val_quotedBody t c hc

/-- The rest of a line, its end included, reads as tokens behind every beginning that does not end
in the prefix of a literal. -/
structure EndsAs (rest : Text) (tokens : Line) : Prop where
  run : ∀ lines line, (endsInWord line = true → NotAhead isQuote rest) →
    (State.mk lines line .code).run rest = some ⟨lines ++ [line ++ tokens], [], .code⟩
  lineEnds : lineEnds rest = 1

theorem EndsAs.ne_nil {rest : Text} {tokens : Line} (h : EndsAs rest tokens) : rest ≠ [] := by
  rintro rfl
  exact absurd h.lineEnds (by decide)

theorem endsAs_end : EndsAs "\n" [] where
  run := by
    intro lines line _
    rw [List.append_nil]
    rfl
  lineEnds := by decide

/-- A piece of a line reads as tokens in front of every rest that no quote mark begins. -/
def ReadsAs (piece : Text) (tokens : Line) : Prop :=
  ∀ rest others, NotAhead isQuote rest → EndsAs rest others →
    EndsAs (piece ++ rest) (tokens ++ others)

theorem ReadsAs.endsAs {piece : Text} {tokens : Line} (h : ReadsAs piece tokens) :
    EndsAs (piece ++ "\n") tokens := by
  have hend := h "\n" [] rfl endsAs_end
  rwa [List.append_nil] at hend

namespace State

variable {lines : List Line} {line : Line}

theorem step_plain {c : CodePoint} (hc : c.isPlain = true) :
    (State.mk lines line .code).step c = some ⟨lines, line ++ [.code c], .code⟩ := by
  have hmem (d : CodePoint) (hd : d.isPlain = false) : c ≠ d := by
    rintro rfl
    rw [hc] at hd
    exact absurd hd (by decide)
  have hquote : isQuote c = false := by
    simp [isQuote, hmem singleQuote (by decide), hmem doubleQuote (by decide)]
  rw [step_eq_read (CodePoint.le_val_of_isPlain hc), read_code,
    readCode, if_neg (hmem _ (by decide)), if_neg (hmem _ (by decide)),
    if_neg (hmem _ (by decide)), hquote]
  rfl

theorem run_plain {t : Text} (ht : Plain t) :
    (State.mk lines line .code).run t = some ⟨lines, line ++ codes t, .code⟩ := by
  induction t generalizing line with
  | nil =>
    rw [run_nil, codes, List.map_nil, List.append_nil]
  | cons c rest ih =>
    rw [Plain, List.forall_mem_cons] at ht
    rw [run_cons, step_plain ht.1, Option.bind_some, ih ht.2, List.append_assoc]
    rfl

theorem run_comment {t : Text} (ht : ∀ c ∈ t, 32 ≤ c.val) :
    (State.mk lines line .comment).run t = some ⟨lines, line, .comment⟩ := by
  induction t with
  | nil => rfl
  | cons c rest ih =>
    rw [List.forall_mem_cons] at ht
    have hline : c ≠ CodePoint.ofChar '\n' := by
      rintro rfl
      exact absurd ht.1 (by decide)
    rw [run_cons, step_eq_read ht.1, read_comment, if_neg hline, Option.bind_some, ih ht.2]

end State

/-- A comment goes to the end of its line and leaves nothing. -/
theorem endsAs_comment {t : Text} (ht : ∀ c ∈ t, 32 ≤ c.val) :
    EndsAs (CodePoint.ofChar '#' :: t ++ "\n") [] where
  run := by
    intro lines line _
    have hmark : (State.mk lines line .code).step '#' = some ⟨lines, line, .comment⟩ := rfl
    rw [List.cons_append, State.run_cons, hmark, Option.bind_some, State.run_append,
      State.run_comment ht, Option.bind_some, List.append_nil]
    rfl
  lineEnds := by
    have hmark : ∀ c ∈ CodePoint.ofChar '#' :: t, 32 ≤ c.val :=
      List.forall_mem_cons.mpr ⟨by decide, ht⟩
    rw [lineEnds_append, lineEnds_eq_zero hmark]
    rfl

/-- Whether a text ends, but not in a word: a literal may follow it. -/
def Opens (t : Text) : Prop := t.getLast?.any (fun c => !c.isIdentifierPart) = true

instance (t : Text) : Decidable (Opens t) := inferInstanceAs (Decidable (_ = true))

theorem Opens.append {s t : Text} (h : Opens t) : Opens (s ++ t) := by
  rw [Opens, List.getLast?_append]
  rw [Opens] at h
  cases hlast : t.getLast? with
  | none =>
    rw [hlast] at h
    cases h
  | some c =>
    rw [hlast] at h
    exact h

theorem endsInWord_append_codes {t : Text} (h : Opens t) (line : Line) :
    endsInWord (line ++ codes t) = false := by
  rw [endsInWord, List.getLast?_append, codes, List.getLast?_map]
  rw [Opens] at h
  cases hlast : t.getLast? with
  | none =>
    rw [hlast] at h
    cases h
  | some c =>
    rw [hlast] at h
    simpa using h

theorem readsAs_plain {t : Text} (ht : Plain t) : ReadsAs t (codes t) := by
  intro rest others hrest hends
  constructor
  · intro lines line _
    rw [State.run_append, State.run_plain ht, Option.bind_some, hends.run _ _ fun _ => hrest,
      List.append_assoc]
  · rw [lineEnds_append, lineEnds_eq_zero (le_val_of_plain ht), hends.lineEnds]

/-- Between plain text and a literal there is a character that belongs to no word. -/
theorem ReadsAs.behind {t piece : Text} {tokens : Line} (ht : Plain t) (hopens : Opens t)
    (h : ReadsAs piece tokens) : ReadsAs (t ++ piece) (codes t ++ tokens) := by
  intro rest others hrest hends
  have hpiece := h rest others hrest hends
  rw [List.append_assoc]
  constructor
  · intro lines line _
    rw [State.run_append, State.run_plain ht, Option.bind_some, hpiece.run]
    · simp only [List.append_assoc]
    · intro hword
      rw [endsInWord_append_codes hopens] at hword
      exact absurd hword (by decide)
  · rw [lineEnds_append, lineEnds_eq_zero (le_val_of_plain ht), hpiece.lineEnds]

theorem ReadsAs.append {piece more : Text} {tokens others : Line} (h : ReadsAs piece tokens)
    (h' : ReadsAs more others) (hne : more ≠ []) (hmore : NotAhead isQuote more) :
    ReadsAs (piece ++ more) (tokens ++ others) := by
  intro rest behind hrest hends
  rw [List.append_assoc, List.append_assoc]
  apply h _ _ _ (h' rest behind hrest hends)
  obtain ⟨c, tail, rfl⟩ := List.exists_cons_of_ne_nil hne
  exact hmore

theorem notAhead_of_plain {t : Text} (ht : Plain t) : NotAhead isQuote t := by
  cases t with
  | nil => exact Text.notAhead_nil
  | cons c rest =>
    have hc := ht c List.mem_cons_self
    have hquote : isQuote c = false := by
      rw [Bool.eq_false_iff]
      intro h
      rcases eq_of_isQuote h with rfl | rfl
      · exact absurd hc (by decide)
      · exact absurd hc (by decide)
    exact hquote

theorem ReadsAs.before {t piece : Text} {tokens : Line} (h : ReadsAs piece tokens)
    (ht : Plain t) (hne : t ≠ []) : ReadsAs (piece ++ t) (tokens ++ codes t) :=
  h.append (readsAs_plain ht) hne (notAhead_of_plain ht)

theorem endsInWord_of_quote {line : Line} {mark : CodePoint} {rest : Text}
    (hmark : isQuote mark = true) (h : endsInWord line = true → NotAhead isQuote (mark :: rest)) :
    endsInWord line = false := by
  rw [Bool.eq_false_iff]
  intro hword
  have hahead := h hword
  rw [Text.notAhead_cons, hmark] at hahead
  exact absurd hahead (by decide)

theorem readsAs_short {mark : CodePoint} {body value : Text} (hmark : isQuote mark = true)
    (hhead : body.head? ≠ some mark) (hbody : Spells ⟨mark, false⟩ body value)
    (hval : ∀ c ∈ body, 32 ≤ c.val) : ReadsAs (mark :: body ++ [mark]) [.literal value] := by
  intro rest others hrest hends
  have hmarkval := State.le_val_of_isQuote hmark
  constructor
  · intro lines line hline
    rw [State.run_short hmark hhead hbody (endsInWord_of_quote hmark hline) hrest hends.ne_nil,
      hends.run _ _ fun _ => hrest, List.append_assoc]
  · have hliteral : lineEnds (mark :: body ++ [mark]) = 0 := by
      apply lineEnds_eq_zero
      simp only [List.forall_mem_append, List.forall_mem_cons, List.not_mem_nil, false_implies,
        implies_true, and_true]
      exact ⟨⟨hmarkval, hval⟩, hmarkval⟩
    rw [lineEnds_append, hliteral, hends.lineEnds]

/-- The quoted literal of a text reads as the text. -/
theorem readsAs_quoted (t : Text) : ReadsAs (quoted t) [.literal t] :=
  readsAs_short (isQuote_quoteMark t) (head_quotedBody t) (spells_quotedBody t)
    (le_val_quotedBody t)

/-- A documentation string reads as what its body spells. -/
theorem readsAs_doc {body value : Text} (hbody : Spells ⟨doubleQuote, true⟩ body value)
    (hval : ∀ c ∈ body, 32 ≤ c.val) :
    ReadsAs ("\"\"\"" ++ body ++ "\"\"\"") [.literal value] := by
  intro rest others hrest hends
  constructor
  · intro lines line hline
    have hmark : isQuote doubleQuote = true := rfl
    have hword : endsInWord line = false := endsInWord_of_quote hmark hline
    refine (State.run_long hmark hbody hword).trans ?_
    rw [hends.run _ _ fun _ => hrest, List.append_assoc]
  · have hmarks : lineEnds "\"\"\"" = 0 := by decide
    rw [lineEnds_append, lineEnds_append, lineEnds_append, hmarks, lineEnds_eq_zero hval,
      hends.lineEnds]

end AbiBindings.Script
