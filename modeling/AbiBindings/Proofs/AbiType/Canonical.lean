import AbiBindings.Proofs.AbiType.Acceptance

/-!
The canonical spelling of a type is a type text again, and reading it gives the type back, except
that a text has no place for the names of components. So the canonical spelling tells types apart
as far as they differ in more than those names, and it is a fixed point: what it is read as has
the same canonical spelling.
-/

namespace AbiBindings

/-- A supported elementary type is spelled as the word and the width that name it. -/
theorem Elementary.Supported.named {kind : Elementary} (h : kind.Supported) :
    ∃ word digits width, kind.canonical = word ++ digits ∧ AbiType.Named word width kind ∧
      AbiType.WidthText digits width := by
  have hnumeral (n : Nat) : AbiType.Numeral (Text.ofNat n) n := AbiType.numeral_iff.mpr rfl
  cases kind with
  | uint bits =>
    obtain ⟨n, rfl, hbits⟩ := h
    refine ⟨"uint", Text.ofNat n, some n, ?_, .uint hbits, .given (hnumeral n)⟩
    simp [canonical, AbiType.sizeText]
  | int bits =>
    obtain ⟨n, rfl, hbits⟩ := h
    refine ⟨"int", Text.ofNat n, some n, ?_, .int hbits, .given (hnumeral n)⟩
    simp [canonical, AbiType.sizeText]
  | fixedBytes size =>
    obtain ⟨n, rfl, hpos, hle⟩ := h
    refine ⟨"bytes", Text.ofNat n, some n, ?_, .fixedBytes hpos hle, .given (hnumeral n)⟩
    simp [canonical]
  | address bits =>
    obtain rfl := h
    exact ⟨"address", [], none, rfl, .address, .absent⟩
  | bool bits =>
    obtain rfl := h
    exact ⟨"bool", [], none, rfl, .bool, .absent⟩
  | bytes => exact ⟨"bytes", [], none, rfl, .bytes, .absent⟩
  | string => exact ⟨"string", [], none, rfl, .string, .absent⟩
  | foreign _ _ => exact h.elim
  | absent => exact h.elim

namespace AbiType

mutual

/-- The type with the name of every component, at any depth, made empty. -/
def eraseNames : AbiType → AbiType
  | elementary kind => elementary kind
  | array length item => array length item.eraseNames
  | tuple parts => tuple (eraseAllNames parts)

/-- The components with every name made empty. -/
def eraseAllNames : List (Text × AbiType) → List (Text × AbiType)
  | [] => []
  | (_, type) :: rest => ([], type.eraseNames) :: eraseAllNames rest

end

theorem eraseAllNames_eq_map (parts : List (Text × AbiType)) :
    eraseAllNames parts = parts.map fun part => ([], part.2.eraseNames) := by
  induction parts with
  | nil => rfl
  | cons part rest ih =>
    obtain ⟨name, type⟩ := part
    rw [eraseAllNames, ih, List.map_cons]

theorem eraseNames_tuple (parts : List (Text × AbiType)) :
    (tuple parts).eraseNames = unnamedTuple (parts.map fun part => part.2.eraseNames) := by
  rw [eraseNames, eraseAllNames_eq_map, unnamedTuple, List.map_map]
  rfl

theorem eraseNames_unnamedTuple (types : List AbiType) :
    (unnamedTuple types).eraseNames = unnamedTuple (types.map eraseNames) := by
  rw [unnamedTuple, eraseNames_tuple, List.map_map]
  rfl

/-- Names play no part in the canonical spelling. -/
theorem canonical_eraseNames (type : AbiType) : type.eraseNames.canonical = type.canonical := by
  induction type using AbiType.induct with
  | elementary kind => rfl
  | array length item ih =>
    cases length with
    | none => rw [eraseNames, canonical, canonical, ih]
    | some n => rw [eraseNames, canonical, canonical, ih]
  | tuple parts ih =>
    rw [eraseNames, eraseAllNames_eq_map, canonical_tuple, canonical_tuple, typesOf, typesOf,
      argumentList, argumentList]
    simp only [List.map_map]
    congr 3
    exact List.map_congr_left ih

theorem supported_eraseNames {type : AbiType} (h : type.Supported) :
    type.eraseNames.Supported := by
  induction type using AbiType.induct with
  | elementary kind => exact h
  | array length item ih =>
    cases length with
    | none =>
      rw [Supported] at h
      rw [eraseNames, Supported]
      exact ih h
    | some n =>
      rw [Supported] at h
      rw [eraseNames, Supported]
      exact ⟨h.1, ih h.2⟩
  | tuple parts ih =>
    rw [supported_tuple] at h
    rw [eraseNames_tuple, supported_unnamedTuple]
    simp only [List.mem_map, forall_exists_index, and_imp, forall_apply_eq_imp_iff₂]
    exact fun part hmem => ih part hmem (h part hmem)

theorem DerivesBase.derives {components : Json} {w : Text} {type : AbiType}
    (h : DerivesBase components w type) : Derives components w type := by
  rw [← List.append_nil w]
  exact .suffixed h .done

theorem Derives.append_suffixes {components : Json} {w s : Text} {type whole : AbiType}
    (h : Derives components w type) (hsuffix : Suffixed type s whole) :
    Derives components (w ++ s) whole := by
  cases h with
  | suffixed hbase hfirst =>
    rw [List.append_assoc]
    exact .suffixed hbase (hfirst.trans hsuffix)

theorem derivesList_canonicals {parts : List (Text × AbiType)} (hne : parts ≠ [])
    (hparts : ∀ part ∈ parts, Derives .null part.2.canonical part.2.eraseNames) :
    DerivesList (Text.join "," (canonicals parts)) (parts.map fun part => part.2.eraseNames) := by
  induction parts with
  | nil => exact absurd rfl hne
  | cons part rest ih =>
    obtain ⟨name, type⟩ := part
    have hfirst : Derives .null type.canonical type.eraseNames :=
      hparts (name, type) List.mem_cons_self
    cases rest with
    | nil => exact .one hfirst
    | cons next more =>
      have hothers := ih (List.cons_ne_nil _ _) fun other hmem => hparts other (by simp [hmem])
      exact .more hfirst hothers

/-- Whatever components come with it, the canonical spelling of a supported type derives the type
without its names. -/
theorem Supported.derives_canonical {type : AbiType} (h : type.Supported) (components : Json) :
    Derives components type.canonical type.eraseNames := by
  induction type using AbiType.induct generalizing components with
  | elementary kind =>
    rw [Supported] at h
    obtain ⟨word, digits, width, hspelled, hnamed, hwidth⟩ := h.named
    rw [canonical, hspelled, eraseNames]
    exact (DerivesBase.named hnamed hwidth).derives
  | array length item ih =>
    cases length with
    | none =>
      rw [Supported] at h
      rw [canonical, eraseNames]
      exact (ih h components).append_suffixes (.anyLength .done)
    | some length =>
      rw [Supported] at h
      obtain ⟨⟨n, rfl, hpos, -⟩, hitem⟩ := h
      have hnumeral : Numeral (Text.ofNat n) n := numeral_iff.mpr rfl
      have hsuffix : Suffixed item.eraseNames _ (array (some n) item.eraseNames) :=
        .ofLength hnumeral hpos .done
      rw [canonical, eraseNames, Text.ofInt_natCast]
      simpa using (ih hitem components).append_suffixes hsuffix
  | tuple parts ih =>
    rw [supported_tuple] at h
    have hparts (part) (hmem : part ∈ parts) :
        Derives .null part.2.canonical part.2.eraseNames :=
      ih part hmem (h part hmem) .null
    rw [eraseNames_tuple, canonical]
    cases parts with
    | nil => exact DerivesBase.emptyList.derives
    | cons part rest =>
      have hlist := derivesList_canonicals (List.cons_ne_nil part rest) hparts
      exact (DerivesBase.list hlist).derives

theorem Suffixed.isBlank_eq_false {item type : AbiType} {w : Text} (h : Suffixed item w type) :
    ∀ c ∈ w, c.isBlank = false := by
  induction h with
  | done => simp
  | anyLength _ ih =>
    intro c hc
    simp only [text_brackets, List.mem_append, List.mem_cons, List.not_mem_nil, or_false] at hc
    rcases hc with (rfl | rfl) | hc
    · decide
    · decide
    · exact ih c hc
  | ofLength hn _ _ ih =>
    intro c hc
    simp only [List.mem_append, text_leftBracket, text_rightBracket, List.mem_singleton] at hc
    rcases hc with ((rfl | hc) | rfl) | hc
    · decide
    · exact CodePoint.isBlank_of_isDigit (hn.isDigit c hc)
    · decide
    · exact ih c hc

mutual

/-- A text that derives a type has no blanks in it. -/
theorem Derives.isBlank_eq_false {components : Json} {w : Text} {type : AbiType} :
    Derives components w type → ∀ c ∈ w, c.isBlank = false
  | .suffixed hbase hsuffix, c, hc => by
    rcases List.mem_append.mp hc with hc | hc
    · exact DerivesBase.isBlank_eq_false hbase c hc
    · exact hsuffix.isBlank_eq_false c hc
termination_by structural h => h

theorem DerivesBase.isBlank_eq_false {components : Json} {w : Text} {type : AbiType} :
    DerivesBase components w type → ∀ c ∈ w, c.isBlank = false
  | .named hnamed hwidth, c, hc => by
    rcases List.mem_append.mp hc with hc | hc
    · exact CodePoint.isBlank_of_isLower (hnamed.isLower.2 c hc)
    · exact CodePoint.isBlank_of_isDigit (hwidth.isDigit c hc)
  | .emptyList, c, hc => by
    revert c
    decide
  | .list hlist, c, hc => by
    simp only [List.mem_append, text_leftParen, text_rightParen, List.mem_singleton] at hc
    rcases hc with (rfl | hc) | rfl
    · decide
    · exact DerivesList.isBlank_eq_false hlist c hc
    · decide
  | .tuple _, c, hc => by
    revert c
    decide
termination_by structural h => h

theorem DerivesList.isBlank_eq_false {w : Text} {types : List AbiType} :
    DerivesList w types → ∀ c ∈ w, c.isBlank = false
  | .one htype, c, hc => Derives.isBlank_eq_false htype c hc
  | .more htype hlist, c, hc => by
    simp only [List.mem_append, text_comma, List.mem_singleton] at hc
    rcases hc with (hc | rfl) | hc
    · exact Derives.isBlank_eq_false htype c hc
    · decide
    · exact DerivesList.isBlank_eq_false hlist c hc
termination_by structural h => h

end

theorem Suffixed.eraseNames_eq {item type : AbiType} {w : Text} (h : Suffixed item w type)
    (hitem : item.eraseNames = item) : type.eraseNames = type := by
  induction h with
  | done => exact hitem
  | anyLength _ ih => exact ih (by rw [eraseNames, hitem])
  | ofLength _ _ _ ih => exact ih (by rw [eraseNames, hitem])

mutual

/-- Where no components are at hand, a text derives only types without names. -/
theorem Derives.eraseNames_eq {components : Json} {w : Text} {type : AbiType} :
    Derives components w type → components = .null → type.eraseNames = type
  | .suffixed hbase hsuffix, hnull =>
    hsuffix.eraseNames_eq (DerivesBase.eraseNames_eq hbase hnull)
termination_by structural h => h

theorem DerivesBase.eraseNames_eq {components : Json} {w : Text} {type : AbiType} :
    DerivesBase components w type → components = .null → type.eraseNames = type
  | .named _ _, _ => rfl
  | .emptyList, _ => rfl
  | .list hlist, _ => by
    have hall := DerivesList.eraseNames_eq hlist
    rw [eraseNames_unnamedTuple, List.map_congr_left hall, List.map_id']
  | .tuple _, hnull => by cases hnull
termination_by structural h => h

theorem DerivesList.eraseNames_eq {w : Text} {types : List AbiType} :
    DerivesList w types → ∀ type ∈ types, type.eraseNames = type
  | .one htype => by simpa using Derives.eraseNames_eq htype rfl
  | .more htype hlist => by
    have hfirst := Derives.eraseNames_eq htype rfl
    have hothers := DerivesList.eraseNames_eq hlist
    simpa using ⟨hfirst, hothers⟩
termination_by structural h => h

end

theorem parse_canonical_of_supported {type : AbiType} (h : type.Supported) (components : Json)
    (path : Option Text) : parse (.str type.canonical) components path = .ok type.eraseNames := by
  have hderives := h.derives_canonical components
  refine parse_eq_ok.mpr ⟨?_, supported_eraseNames h⟩
  rw [Text.trim_eq_self hderives.isBlank_eq_false]
  exact hderives

/-- Canonical spellings are those of one type up to the names of components. -/
theorem canonical_eq_iff {type type' : AbiType} (h : type.Supported) (h' : type'.Supported) :
    type.canonical = type'.canonical ↔ type.eraseNames = type'.eraseNames := by
  constructor
  · intro heq
    have hread := parse_canonical_of_supported h .null none
    rw [heq, parse_canonical_of_supported h' .null none] at hread
    exact (Except.ok.inj hread).symm
  · intro heq
    rw [← canonical_eraseNames type, heq, canonical_eraseNames]

theorem baseWord_isInfix (text : Text) : baseWord text <:+: text :=
  (List.takeWhile_prefix CodePoint.isLower).isInfix.trans (Text.trim_isInfix text)

/-- The canonical spelling of a type that was read is read, without components, as that type
without the names of components, and has the same canonical spelling. A text without the word
`tuple` gives no names, so there the type itself comes back. Two types that were read have one
canonical spelling only if they are the same up to names. -/
theorem parse_canonical {text : Text} {components : Json} {path : Option Text} {type : AbiType}
    (h : parse (.str text) components path = .ok type) :
    (∀ place, parse (.str type.canonical) .null place = .ok type.eraseNames) ∧
    type.eraseNames.canonical = type.canonical ∧
    (¬ ("tuple" : Text) <:+: text → type.eraseNames = type) ∧
    (∀ {text' : Text} {components' : Json} {path' : Option Text} {type' : AbiType},
      parse (.str text') components' path' = .ok type' →
      (type.canonical = type'.canonical ↔ type.eraseNames = type'.eraseNames)) := by
  have hsupported := (parse_eq_ok.mp h).2
  refine ⟨?_, canonical_eraseNames type, ?_, ?_⟩
  · intro place
    exact parse_canonical_of_supported hsupported .null place
  · intro htuple
    have hword : baseWord text ≠ "tuple" := by
      intro heq
      exact htuple (heq ▸ baseWord_isInfix text)
    have hnull : parse (.str text) .null path = .ok type := by
      rw [← h]
      exact ofText_congr hword
    exact (parse_eq_ok.mp hnull).1.eraseNames_eq rfl
  · intro text' components' path' type' h'
    exact canonical_eq_iff hsupported (parse_eq_ok.mp h').2

/-- A struct and a list of types in parentheses with one canonical spelling. -/
theorem parse_canonical_struct :
    parse (.str "(uint256)[]") .null none =
      .ok (array none (tuple [("", elementary (.uint (some 256)))])) ∧
    (array none (tuple [("a", elementary (.uint (some 256)))])).eraseNames =
      (array none (tuple [("", elementary (.uint (some 256)))])).eraseNames ∧
    (array none (tuple [("", elementary (.uint (some 256)))])).eraseNames =
      array none (tuple [("", elementary (.uint (some 256)))]) := by
  have hstruct : parse (.str " tuple[]")
      (.arr [.obj [("name", .str "a"), ("type", .str "uint")]]) none =
        .ok (array none (tuple [("a", elementary (.uint (some 256)))])) := rfl
  have hlist : parse (.str "(uint)[]") .null none =
      .ok (array none (tuple [("", elementary (.uint (some 256)))])) := rfl
  obtain ⟨hread, -, -, hinjective⟩ := parse_canonical hstruct
  obtain ⟨-, -, hunnamed, -⟩ := parse_canonical hlist
  have hword : ¬ ("tuple" : Text) <:+: "(uint)[]" := by
    intro h
    have hmem : CodePoint.ofChar 'p' ∈ ("(uint)[]" : Text) := h.subset (by decide)
    revert hmem
    decide
  exact ⟨hread none, (hinjective hlist).mp rfl, hunnamed hword⟩

end AbiType

end AbiBindings
