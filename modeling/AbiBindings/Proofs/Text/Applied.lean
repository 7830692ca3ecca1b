import AbiBindings.Proofs.AbiType.Unambiguity

/-!
Words applied to arguments, written with angle brackets: a word alone, or a word and after it in
brackets its arguments with commas between them, each of them written in the same way. A text that
starts so shows where its word ends and whether brackets follow, so what is written at the start of
a text is one part of it and has one reading.
-/

namespace AbiBindings.Text

inductive Applied where
  | mk (word : Text) (arguments : List Applied)

namespace Applied

def word : Applied → Text
  | ⟨word, _⟩ => word

def bracketed (arguments : List Text) : Text :=
  if arguments.isEmpty then [] else "<" ++ join ", " arguments ++ ">"

mutual

def written : Applied → Text
  | ⟨word, arguments⟩ => word ++ bracketed (writtenEach arguments)

def writtenEach : List Applied → List Text
  | [] => []
  | argument :: rest => argument.written :: writtenEach rest

end

theorem writtenEach_eq_map (arguments : List Applied) :
    writtenEach arguments = arguments.map written := by
  induction arguments with
  | nil => rfl
  | cons argument rest ih => rw [writtenEach, ih, List.map_cons]

theorem written_mk (word : Text) (arguments : List Applied) :
    written ⟨word, arguments⟩ = word ++ bracketed (arguments.map written) := by
  rw [written, writtenEach_eq_map]

theorem written_word (word : Text) : written ⟨word, []⟩ = word := by
  rw [written_mk]
  exact List.append_nil word

inductive Legible : Applied → Prop
  | mk {word : Text} {arguments : List Applied} : (∀ c ∈ word, c.isAlphanumeric = true) →
      (∀ argument ∈ arguments, Legible argument) → Legible ⟨word, arguments⟩

def continuesApplied (c : CodePoint) : Bool := c.isAlphanumeric || c == CodePoint.ofChar '<'

/-- Where it is written at the start of a text and not continued, nothing else is. -/
def StandsAlone (applied : Applied) : Prop :=
  ∀ {other : Applied} {rest rest' : Text}, other.Legible →
    applied.written ++ rest = other.written ++ rest' → NotAhead continuesApplied rest →
    NotAhead continuesApplied rest' → applied = other ∧ rest = rest'

theorem notAhead_isAlphanumeric {t : Text} (h : NotAhead continuesApplied t) :
    NotAhead CodePoint.isAlphanumeric t :=
  h.mono fun c hc => by simp [continuesApplied, hc]

theorem notAhead_bracketed (arguments : List Text) {rest : Text}
    (h : NotAhead continuesApplied rest) :
    NotAhead CodePoint.isAlphanumeric (bracketed arguments ++ rest) := by
  rw [bracketed]
  split
  · exact notAhead_isAlphanumeric h
  · rfl

/-- Arguments up to the closing bracket have one reading if each of them has. -/
theorem arguments_unique {arguments others : List Applied} {rest rest' : Text}
    (hne : arguments ≠ []) (hne' : others ≠ [])
    (halone : ∀ argument ∈ arguments, argument.StandsAlone)
    (hothers : ∀ other ∈ others, other.Legible)
    (heq : join ", " (writtenEach arguments) ++ (">" ++ rest) =
      join ", " (writtenEach others) ++ (">" ++ rest')) : arguments = others ∧ rest = rest' := by
  induction arguments generalizing others with
  | nil => exact absurd rfl hne
  | cons argument more ih =>
    obtain ⟨other, more', rfl⟩ := List.exists_cons_of_ne_nil hne'
    rw [List.forall_mem_cons] at halone hothers
    -- After one argument there is a comma or the closing bracket, the same in both texts.
    cases more with
    | nil =>
      cases more' with
      | nil =>
        obtain ⟨rfl, htail⟩ := halone.1 hothers.1 heq rfl rfl
        exact ⟨rfl, List.append_cancel_left htail⟩
      | cons next' last' =>
        simp only [writtenEach, join, List.append_assoc] at heq
        obtain ⟨-, htail⟩ := halone.1 hothers.1 heq rfl rfl
        exact absurd (List.cons.inj htail).1 (by decide)
    | cons next last =>
      cases more' with
      | nil =>
        simp only [writtenEach, join, List.append_assoc] at heq
        obtain ⟨-, htail⟩ := halone.1 hothers.1 heq rfl rfl
        exact absurd (List.cons.inj htail).1 (by decide)
      | cons next' last' =>
        simp only [writtenEach, join, List.append_assoc] at heq
        obtain ⟨rfl, htail⟩ := halone.1 hothers.1 heq rfl rfl
        obtain ⟨hmore, hrest⟩ := ih (List.cons_ne_nil _ _) (List.cons_ne_nil _ _) halone.2
          hothers.2 (List.append_cancel_left htail)
        exact ⟨congrArg (List.cons argument) hmore, hrest⟩

/-- An applied word stands alone: the word is read to its end, and then its arguments. -/
theorem Legible.standsAlone {applied : Applied} (h : applied.Legible) : applied.StandsAlone := by
  induction h with
  | @mk word arguments hword _ ih =>
    intro other rest rest' hother heq hrest hrest'
    -- The word ends alike in both, since neither a bracket nor what follows goes on with it.
    obtain @⟨word', arguments', hword', harguments'⟩ := hother
    simp only [written, List.append_assoc] at heq
    obtain ⟨rfl, htail⟩ := run_unique hword hword' (notAhead_bracketed _ hrest)
      (notAhead_bracketed _ hrest') heq
    cases arguments with
    | nil =>
      cases arguments' with
      | nil => exact ⟨rfl, htail⟩
      | cons argument more =>
        subst htail
        exact absurd (notAhead_cons.mp hrest) (by decide)
    | cons argument more =>
      cases arguments' with
      | nil =>
        subst htail
        exact absurd (notAhead_cons.mp hrest') (by decide)
      | cons argument' more' =>
        simp only [bracketed, writtenEach, List.isEmpty_cons, Bool.false_eq_true, if_false,
          List.append_assoc] at htail
        obtain ⟨hsame, hend⟩ := arguments_unique (List.cons_ne_nil _ _) (List.cons_ne_nil _ _) ih
          harguments' (List.append_cancel_left htail)
        exact ⟨congrArg (Applied.mk word) hsame, hend⟩

/-- Applied words that are written alike are the same. -/
theorem Legible.eq_of_written {applied other : Applied} (h : applied.Legible)
    (hother : other.Legible) (heq : applied.written = other.written) : applied = other := by
  have happend : applied.written ++ [] = other.written ++ [] := by rw [heq]
  exact (h.standsAlone hother happend notAhead_nil notAhead_nil).1

end Applied

end AbiBindings.Text
