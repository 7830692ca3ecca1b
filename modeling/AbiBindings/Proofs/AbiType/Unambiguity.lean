import AbiBindings.Proofs.AbiType.Word

/-!
The grammar of type texts is unambiguous: with the same components at hand, a text spells at most
one type. More is shown, because derivations are compared where they start: of two derivations at
the start of one text, each with a rest that does not continue a type, both take the same part of
the text and give the same type.
-/

namespace AbiBindings.AbiType

def continuesList (c : CodePoint) : Bool := continuesType c || c == CodePoint.ofChar ','

theorem notAhead_append {p : CodePoint → Bool} {w rest : Text} (hw : Text.NotAhead p w)
    (hrest : Text.NotAhead p rest) : Text.NotAhead p (w ++ rest) := by
  cases w with
  | nil => exact hrest
  | cons c more => exact hw

theorem Suffixed.notAhead_continuesWord {item type : AbiType} {w : Text}
    (h : Suffixed item w type) : Text.NotAhead continuesWord w := by
  cases h with
  | done => exact Text.notAhead_nil
  | anyLength _ => rfl
  | ofLength _ _ _ => rfl

theorem notAhead_continuesWord {t : Text} (h : Text.NotAhead continuesType t) :
    Text.NotAhead continuesWord t :=
  h.mono fun c hc => by simp [continuesType, hc]

theorem notAhead_continuesType {t : Text} (h : Text.NotAhead continuesList t) :
    Text.NotAhead continuesType t :=
  h.mono fun c hc => by simp [continuesList, hc]

/-- A text without suffixes starts with a parenthesis or a small letter. -/
theorem DerivesBase.start {components : Json} {w : Text} {type : AbiType}
    (h : DerivesBase components w type) :
    ∃ c rest, w = c :: rest ∧ (c = CodePoint.ofChar '(' ∨ c.isLower = true) := by
  cases h with
  | @named _ word digits width kind hnamed _ =>
    obtain ⟨hne, hlower⟩ := hnamed.isLower
    obtain ⟨c, more, rfl⟩ := List.exists_cons_of_ne_nil hne
    exact ⟨c, more ++ digits, rfl, .inr (hlower c (by simp))⟩
  | emptyList => exact ⟨_, _, rfl, .inl rfl⟩
  | list _ => exact ⟨_, _, rfl, .inl rfl⟩
  | tuple _ => exact ⟨_, _, rfl, .inr rfl⟩

theorem Derives.start {components : Json} {w : Text} {type : AbiType}
    (h : Derives components w type) :
    ∃ c rest, w = c :: rest ∧ (c = CodePoint.ofChar '(' ∨ c.isLower = true) := by
  cases h with
  | suffixed hbase _ =>
    obtain ⟨c, rest, rfl, hc⟩ := hbase.start
    exact ⟨c, _, rfl, hc⟩

theorem DerivesList.start {w : Text} {types : List AbiType} (h : DerivesList w types) :
    ∃ c rest, w = c :: rest ∧ (c = CodePoint.ofChar '(' ∨ c.isLower = true) := by
  cases h with
  | one htype => exact htype.start
  | more htype _ =>
    obtain ⟨c, rest, rfl, hc⟩ := htype.start
    exact ⟨c, _, rfl, hc⟩

/-- A word with its digits is one part of the text. -/
theorem word_unique {word word' digits digits' rest rest' : Text} {width width' : Option Nat}
    (hword : ∀ c ∈ word, c.isLower = true) (hword' : ∀ c ∈ word', c.isLower = true)
    (hwidth : WidthText digits width) (hwidth' : WidthText digits' width')
    (hrest : Text.NotAhead continuesWord rest) (hrest' : Text.NotAhead continuesWord rest')
    (heq : word ++ digits ++ rest = word' ++ digits' ++ rest') :
    word = word' ∧ digits = digits' ∧ rest = rest' := by
  rw [List.append_assoc, List.append_assoc] at heq
  obtain ⟨hw, htail⟩ := Text.run_unique hword hword' (hwidth.notAhead_isLower hrest)
    (hwidth'.notAhead_isLower hrest') heq
  have hdigit {t : Text} (h : Text.NotAhead continuesWord t) :
      Text.NotAhead CodePoint.isDigit t :=
    h.mono fun c hc => by simp [continuesWord, hc]
  exact ⟨hw, Text.run_unique hwidth.isDigit hwidth'.isDigit (hdigit hrest) (hdigit hrest') htail⟩

/-- A length in brackets is one part of the text. -/
theorem length_unique {digits digits' rest rest' : Text} {n n' : Nat}
    (hn : Numeral digits n) (hn' : Numeral digits' n')
    (heq : "[" ++ (digits ++ ("]" ++ rest)) = "[" ++ (digits' ++ ("]" ++ rest'))) :
    n = n' ∧ rest = rest' := by
  have hinner := List.append_cancel_left heq
  have hclose {t : Text} : Text.NotAhead CodePoint.isDigit ("]" ++ t) := rfl
  obtain ⟨rfl, htail⟩ := Text.run_unique hn.isDigit hn'.isDigit hclose hclose hinner
  rw [← hn.value, ← hn'.value]
  exact ⟨rfl, List.append_cancel_left htail⟩

/-- Brackets with a length are not brackets without one. -/
theorem brackets_ne_length {digits rest rest' : Text} {n : Nat} (hn : Numeral digits n) :
    "[]" ++ rest ≠ "[" ++ (digits ++ ("]" ++ rest')) := by
  obtain ⟨d, more, rfl⟩ := List.exists_cons_of_ne_nil hn.ne_nil
  have hd : d.isDigit = true := hn.isDigit d (by simp)
  intro heq
  have hinner : "]" ++ rest = d :: (more ++ ("]" ++ rest')) := (List.cons.inj heq).2
  obtain ⟨rfl, -⟩ := List.cons.inj hinner
  exact absurd hd (by decide)

theorem not_notAhead_bracket {t : Text} :
    ¬ Text.NotAhead continuesType (CodePoint.ofChar '[' :: t) := by
  rw [Text.notAhead_cons]
  decide

/-- The suffixes at the start of a text are one part of it. -/
theorem Suffixed.unique {item type type' : AbiType} {w w' rest rest' : Text}
    (h : Suffixed item w type) (h' : Suffixed item w' type') (heq : w ++ rest = w' ++ rest')
    (hrest : Text.NotAhead continuesType rest) (hrest' : Text.NotAhead continuesType rest') :
    type = type' ∧ rest = rest' := by
  induction h generalizing w' with
  | done =>
    rw [List.nil_append] at heq
    cases h' with
    | done => exact ⟨rfl, heq⟩
    | anyLength _ =>
      subst heq
      exact absurd hrest not_notAhead_bracket
    | ofLength _ _ _ =>
      subst heq
      exact absurd hrest not_notAhead_bracket
  | anyLength _ ih =>
    simp only [List.append_assoc] at heq
    cases h' with
    | done =>
      rw [List.nil_append] at heq
      subst heq
      exact absurd hrest' not_notAhead_bracket
    | anyLength h' =>
      rw [List.append_assoc] at heq
      exact ih h' (List.append_cancel_left heq)
    | ofLength hn _ _ =>
      simp only [List.append_assoc] at heq
      exact absurd heq (brackets_ne_length hn)
  | ofLength hn _ _ ih =>
    simp only [List.append_assoc] at heq
    cases h' with
    | done =>
      rw [List.nil_append] at heq
      subst heq
      exact absurd hrest' not_notAhead_bracket
    | anyLength _ =>
      rw [List.append_assoc] at heq
      exact absurd heq.symm (brackets_ne_length hn)
    | ofLength hn' _ h' =>
      simp only [List.append_assoc] at heq
      obtain ⟨rfl, htail⟩ := length_unique hn hn' heq
      exact ih h' htail

theorem ComponentName.unique {value : Option Json} {name name' : Text}
    (h : ComponentName value name) (h' : ComponentName value name') : name = name' := by
  cases h with
  | absent => cases h'; rfl
  | unset hunset =>
    cases h' with
    | unset _ => rfl
    | text =>
      simpa [Json.isSet] using hunset.symm
  | text =>
    cases h' with
    | unset hunset => simpa [Json.isSet] using hunset
    | text => rfl

theorem not_notAhead_comma {t : Text} :
    ¬ Text.NotAhead continuesList (CodePoint.ofChar ',' :: t) := by
  rw [Text.notAhead_cons]
  decide

theorem notAhead_paren {t : Text} : Text.NotAhead continuesList (")" ++ t) := rfl

/-- A list of types starts with the start of a type, so no list is empty. -/
theorem DerivesList.ne_closed {w rest rest' : Text} {types : List AbiType}
    (h : DerivesList w types) : "()" ++ rest ≠ "(" ++ (w ++ (")" ++ rest')) := by
  obtain ⟨c, more, rfl, hc⟩ := h.start
  intro heq
  have hinner : ")" ++ rest = c :: (more ++ (")" ++ rest')) := (List.cons.inj heq).2
  obtain ⟨rfl, -⟩ := List.cons.inj hinner
  exact absurd hc (by decide)

/-- A text that starts with a word does not start with a parenthesis. -/
theorem word_ne_paren {word rest rest' : Text} (hne : word ≠ [])
    (hword : ∀ c ∈ word, c.isLower = true) : word ++ rest ≠ CodePoint.ofChar '(' :: rest' := by
  obtain ⟨c, more, rfl⟩ := List.exists_cons_of_ne_nil hne
  intro heq
  have hc := hword c (by simp)
  obtain ⟨rfl, -⟩ := List.cons.inj heq
  exact absurd hc (by decide)

/-- The word `tuple` names no elementary type. -/
theorem Named.ne_tuple_append {word digits rest rest' : Text} {width : Option Nat}
    {kind : Elementary} (h : Named word width kind) (hwidth : WidthText digits width)
    (hrest : Text.NotAhead continuesWord rest) (hrest' : Text.NotAhead continuesWord rest') :
    word ++ digits ++ rest ≠ "tuple" ++ rest' := by
  intro heq
  have htuple : ∀ c ∈ ("tuple" : Text), c.isLower = true := by decide
  have hsplit : word ++ digits ++ rest = ("tuple" : Text) ++ [] ++ rest' := heq
  have hword := word_unique h.isLower.2 htuple hwidth .absent hrest hrest' hsplit
  exact h.ne_tuple hword.1

mutual

/-- The type at the start of a text is one part of it and has one reading. -/
theorem Derives.unique {components : Json} {w : Text} {type : AbiType} :
    Derives components w type → ∀ {w' rest rest' : Text} {type' : AbiType},
      Derives components w' type' → w ++ rest = w' ++ rest' →
      Text.NotAhead continuesType rest → Text.NotAhead continuesType rest' →
      type = type' ∧ rest = rest'
  | .suffixed hbase hsuffix, w', rest, rest', type', h', heq, hrest, hrest' => by
    cases h' with
    | suffixed hbase' hsuffix' =>
      rw [List.append_assoc, List.append_assoc] at heq
      have hafter := notAhead_append hsuffix.notAhead_continuesWord (notAhead_continuesWord hrest)
      have hafter' :=
        notAhead_append hsuffix'.notAhead_continuesWord (notAhead_continuesWord hrest')
      obtain ⟨rfl, htail⟩ := DerivesBase.unique hbase hbase' heq hafter hafter'
      exact hsuffix.unique hsuffix' htail hrest hrest'
termination_by structural h => h

/-- The base at the start of a text is one part of it and has one reading. -/
theorem DerivesBase.unique {components : Json} {w : Text} {type : AbiType} :
    DerivesBase components w type → ∀ {w' rest rest' : Text} {type' : AbiType},
      DerivesBase components w' type' → w ++ rest = w' ++ rest' →
      Text.NotAhead continuesWord rest → Text.NotAhead continuesWord rest' →
      type = type' ∧ rest = rest'
  | .named hnamed hwidth, w', rest, rest', type', h', heq, hrest, hrest' => by
    have hword := hnamed.isLower
    cases h' with
    | named hnamed' hwidth' =>
      obtain ⟨rfl, rfl, htail⟩ :=
        word_unique hword.2 hnamed'.isLower.2 hwidth hwidth' hrest hrest' heq
      obtain rfl := hwidth.unique hwidth'
      exact ⟨congrArg elementary (hnamed.unique hnamed'), htail⟩
    | emptyList =>
      rw [List.append_assoc] at heq
      exact absurd heq (word_ne_paren hword.1 hword.2)
    | list _ =>
      simp only [List.append_assoc] at heq
      exact absurd heq (word_ne_paren hword.1 hword.2)
    | tuple _ => exact absurd heq (hnamed.ne_tuple_append hwidth hrest hrest')
  | .emptyList, w', rest, rest', type', h', heq, hrest, hrest' => by
    cases h' with
    | named hnamed' _ =>
      rw [List.append_assoc] at heq
      have hword' := hnamed'.isLower
      exact absurd heq.symm (word_ne_paren hword'.1 hword'.2)
    | emptyList => exact ⟨rfl, List.append_cancel_left heq⟩
    | list hlist' =>
      simp only [List.append_assoc] at heq
      exact absurd heq hlist'.ne_closed
    | tuple _ => exact absurd (List.cons.inj heq).1 (by decide)
  | .list hlist, w', rest, rest', type', h', heq, hrest, hrest' => by
    simp only [List.append_assoc] at heq
    cases h' with
    | named hnamed' _ =>
      rw [List.append_assoc] at heq
      have hword' := hnamed'.isLower
      exact absurd heq.symm (word_ne_paren hword'.1 hword'.2)
    | emptyList => exact absurd heq.symm hlist.ne_closed
    | list hlist' =>
      simp only [List.append_assoc] at heq
      obtain ⟨rfl, htail⟩ :=
        DerivesList.unique hlist hlist' (List.append_cancel_left heq) notAhead_paren notAhead_paren
      exact ⟨rfl, List.append_cancel_left htail⟩
    | tuple _ => exact absurd (List.cons.inj heq).1 (by decide)
  | .tuple hparts, w', rest, rest', type', h', heq, hrest, hrest' => by
    cases h' with
    | named hnamed' hwidth' =>
      exact absurd heq.symm (hnamed'.ne_tuple_append hwidth' hrest' hrest)
    | emptyList => exact absurd (List.cons.inj heq).1 (by decide)
    | list _ => exact absurd (List.cons.inj heq).1 (by decide)
    | tuple hparts' =>
      obtain rfl := DerivesComponents.unique hparts hparts'
      exact ⟨rfl, List.append_cancel_left heq⟩
termination_by structural h => h

/-- The types between commas at the start of a text are one part of it. -/
theorem DerivesList.unique {w : Text} {types : List AbiType} :
    DerivesList w types → ∀ {w' rest rest' : Text} {types' : List AbiType},
      DerivesList w' types' → w ++ rest = w' ++ rest' →
      Text.NotAhead continuesList rest → Text.NotAhead continuesList rest' →
      types = types' ∧ rest = rest'
  | .one htype, w', rest, rest', types', h', heq, hrest, hrest' => by
    cases h' with
    | one htype' =>
      obtain ⟨rfl, htail⟩ := Derives.unique htype htype' heq (notAhead_continuesType hrest)
        (notAhead_continuesType hrest')
      exact ⟨rfl, htail⟩
    | more htype' _ =>
      simp only [List.append_assoc] at heq
      obtain ⟨-, rfl⟩ := Derives.unique htype htype' heq (notAhead_continuesType hrest) rfl
      exact absurd hrest not_notAhead_comma
  | .more htype hlist, w', rest, rest', types', h', heq, hrest, hrest' => by
    simp only [List.append_assoc] at heq
    cases h' with
    | one htype' =>
      obtain ⟨-, rfl⟩ := Derives.unique htype htype' heq rfl (notAhead_continuesType hrest')
      exact absurd hrest' not_notAhead_comma
    | more htype' hlist' =>
      simp only [List.append_assoc] at heq
      obtain ⟨rfl, htail⟩ := Derives.unique htype htype' heq rfl rfl
      obtain ⟨rfl, hend⟩ :=
        DerivesList.unique hlist hlist' (List.append_cancel_left htail) hrest hrest'
      exact ⟨rfl, hend⟩
termination_by structural h => h

/-- A list of objects spells one list of components. -/
theorem DerivesComponents.unique {items : List Json} {parts : List (Text × AbiType)} :
    DerivesComponents items parts → ∀ {parts' : List (Text × AbiType)},
      DerivesComponents items parts' → parts = parts'
  | .nil, parts', h' => by
    cases h' with
    | nil => rfl
  | .cons htext hname htype hrest, parts', h' => by
    cases h' with
    | cons htext' hname' htype' hrest' =>
      obtain rfl := Json.str.inj (Option.some.inj (htext.symm.trans htext'))
      obtain ⟨rfl, -⟩ :=
        Derives.unique htype htype' rfl Text.notAhead_nil Text.notAhead_nil
      rw [hname.unique hname', DerivesComponents.unique hrest hrest']
termination_by structural h => h

end

end AbiBindings.AbiType
