import AbiBindings.Proofs.Identifier.Params
import AbiBindings.Proofs.Script.Statements

/-!
Names in the source. What a line returns refers to names: words outside literals that are no
keywords, no attributes, which stand behind a point, and no keywords of arguments, which stand right
in front of an equals sign. Other lines give a name a value or a type.
-/

namespace AbiBindings.Script

open Identifier (IsParamName)
open Text (Plain NotAhead)

def nameOf (dotted : Bool) (word : Text) : List Text :=
  if !dotted && word.head?.any CodePoint.isIdentifierStart &&
      !Identifier.keywords.contains word then
    [word]
  else []

/-- The names in a line whose first tokens go on with a word. The mark says whether a point stands
in front of the word. -/
def namesFrom : (dotted : Bool) → (word : Text) → Line → List Text
  | dotted, word, [] => nameOf dotted word
  | dotted, word, .literal _ :: rest => nameOf dotted word ++ namesFrom false [] rest
  | dotted, word, .code c :: rest =>
    if c.isIdentifierPart then namesFrom dotted (word ++ [c]) rest
    else (if c = '=' then [] else nameOf dotted word) ++ namesFrom (c = '.') [] rest

def names (line : Line) : List Text := namesFrom false [] line

def lineReturns (line : Line) : List Text :=
  let (word, rest) := splitRun CodePoint.isIdentifierPart (skipBlanks line)
  if word = "return" then names rest else []

/-- The name that a line gives a value or a type to. -/
def lineBinds? (line : Line) : Option Text :=
  let (word, rest) := splitRun CodePoint.isIdentifierPart (skipBlanks line)
  if word ≠ [] ∧ ¬ Identifier.keywords.contains word ∧
      (rest.head? = some (.code ':') ∨ rest.take 3 = codes " = ") then some word
  else none

def returnedNames (source : Text) : List Text := ((scan source).getD []).flatMap lineReturns

/-- All names that a source gives values or types to. -/
def boundNames (source : Text) : List Text := ((scan source).getD []).filterMap lineBinds?

def LineReads {β : Type} (read : Line → β) (line : Text) (result : β) : Prop :=
  ∃ tokens, EndsAs (line ++ "\n") tokens ∧ read tokens = result

section

variable {β : Type} {read : Line → β} {result : β}

theorem lineReads_plain {line : Text} (hplain : Plain line) :
    LineReads read line (read (codes line)) :=
  ⟨codes line, (readsAs_plain hplain).endsAs, rfl⟩

/-- A fixed line is read from its characters. -/
theorem lineReads_fixed {chars : List Char} (hplain : Plain (chars.map CodePoint.ofChar))
    (hread : read (codes (chars.map CodePoint.ofChar)) = result) :
    LineReads read (Text.ofString (String.ofList chars)) result := by
  rw [Text.ofString_eq rfl, ← hread]
  exact lineReads_plain hplain

/-- What a line says may settle what is read off it. -/
theorem LineSays.reads {line : Text} {said : Option Statement} (h : LineSays line said)
    (hread : ∀ tokens, statement? tokens = said → read tokens = result) :
    LineReads read line result := by
  obtain ⟨tokens, hends, hsaid⟩ := h
  exact ⟨tokens, hends, hread tokens hsaid⟩

/-- So may its beginning. -/
theorem lineReads_behind (opening : Text) {piece : Text} {tokens : Line} (hplain : Plain opening)
    (hopens : Opens opening) (hpiece : ReadsAs piece tokens)
    (hread : read (codes opening ++ tokens) = result) : LineReads read (opening ++ piece) result :=
  ⟨codes opening ++ tokens, (hpiece.behind hplain hopens).endsAs, hread⟩

theorem exists_scan_lines {all : List Text} {results : List β}
    (h : List.Forall₂ (LineReads read) all results) :
    ∃ lines, scan (Client.lines all) = some lines ∧ lines.map read = results := by
  have hrun : ∃ lines, (∀ before, (State.mk before [] .code).run (Client.lines all) =
      some ⟨before ++ lines, [], .code⟩) ∧ lines.map read = results := by
    induction h with
    | nil =>
      refine ⟨[], fun before => ?_, rfl⟩
      rw [List.append_nil]
      rfl
    | @cons line result others results hline _ ih =>
      obtain ⟨tokens, hends, hread⟩ := hline
      obtain ⟨lines, hrun, hmap⟩ := ih
      refine ⟨tokens :: lines, fun before => ?_, ?_⟩
      · have hfirst := hends.run before [] fun h => absurd h (by decide)
        have hlines : Client.lines (line :: others) = line ++ "\n" ++ Client.lines others := rfl
        rw [hlines, State.run_append, hfirst, Option.bind_some, hrun, List.append_assoc]
        rfl
      · rw [List.map_cons, hread, hmap]
  obtain ⟨lines, hrun, hmap⟩ := hrun
  refine ⟨lines, ?_, hmap⟩
  rw [scan, start, hrun []]
  rfl

end

theorem returnedNames_lines {all : List Text} {results : List (List Text)}
    (h : List.Forall₂ (LineReads lineReturns) all results) :
    returnedNames (Client.lines all) = results.flatten := by
  obtain ⟨lines, hscan, hmap⟩ := exists_scan_lines h
  rw [returnedNames, hscan, ← hmap]
  exact List.flatMap_def

theorem boundNames_lines {all : List Text} {results : List (Option Text)}
    (h : List.Forall₂ (LineReads lineBinds?) all results) :
    boundNames (Client.lines all) = results.filterMap id := by
  obtain ⟨lines, hscan, hmap⟩ := exists_scan_lines h
  rw [boundNames, hscan, ← hmap, List.filterMap_map]
  rfl

section

variable {line tokens : Line}

/-- What a line says that starts with a word, by the word. -/
theorem wordStatement?_cases {said : Statement} (h : wordStatement? line = some said) :
    (∃ keyword name, said = .head keyword name ∧
      (splitRun CodePoint.isIdentifierPart line).1 ∈ [("class" : Text), "def"]) ∨
    (∃ callee values, said = .returned callee values) ∨
    ∃ name value, said = .assigned name value ∧
      (splitRun CodePoint.isIdentifierPart line).1 = name ∧ name ≠ [] ∧
      (assignedTokens? (splitRun CodePoint.isIdentifierPart line).2).isSome = true := by
  unfold wordStatement? at h
  dsimp only at h
  split at h
  · next hword =>
    obtain ⟨_, -, rfl⟩ := Option.map_eq_some_iff.mp h
    exact .inl ⟨_, _, rfl, by simpa using hword⟩
  split at h
  · obtain ⟨_, -, rfl⟩ := Option.map_eq_some_iff.mp h
    exact .inr (.inl ⟨_, _, rfl⟩)
  split at h
  · cases h
  next hempty =>
    obtain ⟨assigned, htokens, hvalue⟩ := Option.bind_eq_some_iff.mp h
    obtain ⟨value, -, rfl⟩ := Option.map_eq_some_iff.mp hvalue
    have hne : (splitRun CodePoint.isIdentifierPart line).1 ≠ [] := by simpa using hempty
    exact .inr (.inr ⟨_, value, rfl, rfl, hne, Option.isSome_iff_exists.mpr ⟨assigned, htokens⟩⟩)

/-- A statement that is no documentation string starts with a word. -/
theorem wordStatement?_of_statement? {said : Statement} (h : statement? tokens = some said)
    (hdoc : ∀ value, said ≠ .doc value) : wordStatement? (skipBlanks tokens) = some said := by
  unfold statement? at h
  split at h
  · cases h
    exact absurd rfl (hdoc _)
  · exact h

theorem skipBlanks_of_doc {value : Text} (h : statement? tokens = some (.doc value)) :
    skipBlanks tokens = [.literal value] := by
  unfold statement? at h
  split at h
  · next hskip =>
    cases h
    exact hskip
  · obtain ⟨_, _, hsaid, -⟩ | ⟨_, _, hsaid⟩ | ⟨_, _, hsaid, -⟩ := wordStatement?_cases h
    all_goals cases hsaid

theorem lineReturns_of_doc {value : Text} (h : statement? tokens = some (.doc value)) :
    lineReturns tokens = [] := by
  rw [lineReturns, skipBlanks_of_doc h]
  rfl

theorem lineBinds?_of_doc {value : Text} (h : statement? tokens = some (.doc value)) :
    lineBinds? tokens = none := by
  rw [lineBinds?, skipBlanks_of_doc h]
  rfl

theorem word_of_head {keyword name : Text} (h : statement? tokens = some (.head keyword name)) :
    (splitRun CodePoint.isIdentifierPart (skipBlanks tokens)).1 ∈ [("class" : Text), "def"] := by
  have hsaid := wordStatement?_of_statement? h fun _ => nofun
  obtain ⟨_, _, -, hword⟩ | ⟨_, _, hother⟩ | ⟨_, _, hother, -⟩ := wordStatement?_cases hsaid
  · exact hword
  · cases hother
  · cases hother

theorem lineReturns_of_head {keyword name : Text}
    (h : statement? tokens = some (.head keyword name)) : lineReturns tokens = [] := by
  have hwords : ∀ word ∈ [("class" : Text), "def"], word ≠ "return" := by decide
  unfold lineReturns
  exact if_neg (hwords _ (word_of_head h))

theorem lineBinds?_of_head {keyword name : Text}
    (h : statement? tokens = some (.head keyword name)) : lineBinds? tokens = none := by
  have hwords : ∀ word ∈ [("class" : Text), "def"], word ∈ Identifier.keywords := by decide
  unfold lineBinds?
  exact if_neg fun hbinds =>
    hbinds.2.1 (List.contains_iff_mem.mpr (hwords _ (word_of_head h)))

theorem lineBinds?_of_assigned {name : Text} {value : Value} (hname : name ∉ Identifier.keywords)
    (h : statement? tokens = some (.assigned name value)) : lineBinds? tokens = some name := by
  have hsaid := wordStatement?_of_statement? h fun _ => nofun
  obtain ⟨_, _, hother, -⟩ | ⟨_, _, hother⟩ | ⟨_, _, heq, hword, hne, hassigned⟩ :=
    wordStatement?_cases hsaid
  · cases hother
  · cases hother
  cases heq
  unfold lineBinds?
  rw [← hword] at hname hne ⊢
  apply if_pos
  refine ⟨hne, fun hkeyword => hname (List.contains_iff_mem.mp hkeyword), ?_⟩
  unfold assignedTokens? at hassigned
  split at hassigned
  · next hcolon => exact .inl hcolon
  split at hassigned
  · next hequals => exact .inr hequals
  · cases hassigned

end

/-- A name in front of a colon is bound if a parameter can have it. -/
theorem lineBinds?_typed (indent : Nat) {word : Text} (h : IsParamName word) (rest : Text) :
    lineBinds? (codes (Text.spaces indent ++ (word ++ CodePoint.ofChar ':' :: rest))) =
      some word := by
  have hblanks : ∀ c ∈ Text.spaces indent, decide (c = CodePoint.ofChar ' ') = true := by
    intro c hc
    rw [List.eq_of_mem_replicate hc]
    rfl
  have hstart : NotAhead (fun c => decide (c = CodePoint.ofChar ' '))
      (word ++ CodePoint.ofChar ':' :: rest) := by
    cases word with
    | nil => cases h.start
    | cons c others =>
      have hlower : c.isLower = true := h.start
      rw [List.cons_append, Text.notAhead_cons, decide_eq_false_iff_not]
      rintro rfl
      exact absurd hlower (by decide)
  have hne : word ≠ [] := by
    rintro rfl
    cases h.start
  have hsplit : splitRun CodePoint.isIdentifierPart (codes (word ++ CodePoint.ofChar ':' :: rest)) =
      (word, codes (CodePoint.ofChar ':' :: rest)) := splitRun_word h.isWord rfl
  rw [lineBinds?, skipBlanks_codes, Text.dropWhile_run hblanks hstart, hsplit]
  exact if_pos ⟨hne, fun hkeyword => h.not_keyword (List.contains_iff_mem.mp hkeyword), .inl rfl⟩

section

variable {dotted : Bool} {start rest : Line} {word : Text}

/-- A word goes on to its end. -/
theorem namesFrom_word {more : Text} (h : ∀ c ∈ more, c.isIdentifierPart = true) :
    namesFrom dotted word (codes more ++ rest) = namesFrom dotted (word ++ more) rest := by
  induction more generalizing word with
  | nil => rw [List.append_nil]; rfl
  | cons c more ih =>
    rw [List.forall_mem_cons] at h
    have hstep : namesFrom dotted word (codes (c :: more) ++ rest) =
        namesFrom dotted (word ++ [c]) (codes more ++ rest) := if_pos h.1
    rw [hstep, ih h.2, List.append_assoc]
    rfl

theorem namesFrom_stop {c : CodePoint} (h : c.isIdentifierPart = false)
    (hequals : c ≠ CodePoint.ofChar '=') (hpoint : c ≠ CodePoint.ofChar '.') :
    namesFrom dotted word (.code c :: rest) = nameOf dotted word ++ names rest := by
  rw [namesFrom, h, if_neg (by decide), if_neg hequals, decide_eq_false hpoint]
  rfl

/-- What stands behind a mark that ends a word has names of its own. -/
theorem namesFrom_append {c : CodePoint} (h : c.isIdentifierPart = false)
    (hequals : c ≠ CodePoint.ofChar '=') (hpoint : c ≠ CodePoint.ofChar '.') :
    namesFrom dotted word (start ++ .code c :: rest) =
      namesFrom dotted word start ++ names rest := by
  induction start generalizing dotted word with
  | nil => exact namesFrom_stop h hequals hpoint
  | cons token start ih =>
    cases token with
    | literal value =>
      rw [List.cons_append, namesFrom, namesFrom, ih, List.append_assoc]
    | code d =>
      rw [List.cons_append, namesFrom, namesFrom]
      split
      · exact ih
      · rw [ih, List.append_assoc]

theorem nameOf_paramName (h : IsParamName word) : nameOf false word = [word] := by
  have hkeyword : Identifier.keywords.contains word = false := by
    rw [List.contains_eq_mem, decide_eq_false h.not_keyword]
  obtain ⟨⟨hstart, -⟩, -, -⟩ := h.usable
  rw [nameOf, hkeyword, hstart]
  rfl

theorem names_join {words : List Text} (h : ∀ word ∈ words, IsParamName word) :
    names (codes (Text.join ", " words) ++ .code ']' :: rest) = words ++ names rest := by
  induction words with
  | nil => rfl
  | cons first others ih =>
    rw [List.forall_mem_cons] at h
    cases others with
    | nil =>
      rw [names, Text.join, namesFrom_word h.1.isWord,
        namesFrom_stop (by decide) (by decide) (by decide), List.nil_append, nameOf_paramName h.1]
    | cons second others =>
      have hitem : names (codes (Text.join ", " (first :: second :: others)) ++
          .code ']' :: rest) = nameOf false first ++
            names (codes (Text.join ", " (second :: others)) ++ .code ']' :: rest) := by
        rw [names, Text.join, codes_append, codes_append, List.append_assoc, List.append_assoc,
          namesFrom_word h.1.isWord, List.nil_append]
        exact namesFrom_stop (by decide) (by decide) (by decide)
      rw [hitem, ih h.2, nameOf_paramName h.1]
      rfl

/-- The items of a list in square brackets are names if parameters can have them. -/
theorem names_brackets {words : List Text} (h : ∀ word ∈ words, IsParamName word) :
    names (start ++ .code '[' :: (codes (Text.join ", " words) ++ .code ']' :: rest)) =
      names start ++ (words ++ names rest) := by
  rw [names, namesFrom_append (by decide) (by decide) (by decide), names_join h]
  rfl

theorem lineReturns_return : lineReturns (codes "        return " ++ rest) = names rest := rfl

end

end AbiBindings.Script
