import AbiBindings.Proofs.Script.Values

/-!
Statements of the source that hold literals or say where these stand: heads of classes and
functions, documentation strings, assignments and returned calls. Each fills one line, so what a
source says is what its lines say, one after the other.
-/

namespace AbiBindings.Script

open Text (Plain NotAhead)

inductive Statement where
  /-- The head of a class or function. -/
  | head (keyword name : Text)
  /-- A documentation string. -/
  | doc (value : Text)
  /-- A value for a name. -/
  | assigned (name : Text) (value : Value)
  /-- A call whose result is returned, with the literals among its arguments. -/
  | returned (callee : Text) (literals : List Text)

/-- What stands behind the first equals sign between blanks. -/
def afterEquals : Line → Option Line
  | [] => none
  | token :: rest =>
    if (token :: rest).take 3 = codes " = " then some (rest.drop 2) else afterEquals rest

/-- What stands behind the name of an assignment, which may have an annotation after a colon. -/
def assignedTokens? (line : Line) : Option Line :=
  if line.head? = some (.code ':') then afterEquals line
  else if line.take 3 = codes " = " then some (line.drop 3)
  else none

def afterKeyword? : Line → Option Line
  | .code c :: rest => if c = ' ' then some rest else none
  | _ => none

def firstWord (line : Line) : Text := (splitRun CodePoint.isIdentifierPart line).1

/-- What a line without indentation says that is no documentation string. -/
def wordStatement? (line : Line) : Option Statement :=
  let (word, rest) := splitRun CodePoint.isIdentifierPart line
  if word = "class" ∨ word = "def" then
    (afterKeyword? rest).map fun rest => .head word (firstWord rest)
  else if word = "return" then
    (afterKeyword? rest).map fun rest => .returned (firstWord rest) (literals rest)
  else if word.isEmpty then none
  else (assignedTokens? rest).bind fun tokens => (wholeValue? tokens).map (.assigned word)

def statement? (line : Line) : Option Statement :=
  match skipBlanks line with
  | [.literal value] => some (.doc value)
  | line => wordStatement? line

/-- What the lines say that say anything. -/
def statements (lines : List Line) : List Statement := lines.filterMap statement?

/-- A text is made of whole lines, and these say the statements and no others. -/
def Says (text : Text) (said : List Statement) : Prop :=
  ∃ lines, (∀ before, (State.mk before [] .code).run text = some ⟨before ++ lines, [], .code⟩) ∧
    lineEnds text = lines.length ∧ statements lines = said

def LineSays (line : Text) (said : Option Statement) : Prop :=
  ∃ tokens, EndsAs (line ++ "\n") tokens ∧ statement? tokens = said

theorem says_nil : Says [] [] := by
  refine ⟨[], ?_, rfl, rfl⟩
  intro before
  rw [List.append_nil, State.run_nil]

theorem Says.append {text more : Text} {said others : List Statement} (h : Says text said)
    (h' : Says more others) : Says (text ++ more) (said ++ others) := by
  obtain ⟨lines, hrun, hends, rfl⟩ := h
  obtain ⟨lines', hrun', hends', rfl⟩ := h'
  refine ⟨lines ++ lines', ?_, ?_, List.filterMap_append⟩
  · intro before
    rw [State.run_append, hrun, Option.bind_some, hrun', List.append_assoc]
  · rw [lineEnds_append, hends, hends', List.length_append]

theorem says_flatMap {α : Type} {items : List α} {text : α → Text} {said : α → List Statement}
    (h : ∀ x ∈ items, Says (text x) (said x)) :
    Says (items.flatMap text) (items.flatMap said) := by
  induction items with
  | nil => exact says_nil
  | cons x xs ih =>
    rw [List.forall_mem_cons] at h
    exact h.1.append (ih h.2)

theorem LineSays.ended {line : Text} {said : Option Statement} (h : LineSays line said) :
    Says (line ++ "\n") said.toList := by
  obtain ⟨tokens, hends, rfl⟩ := h
  refine ⟨[tokens], ?_, hends.lineEnds, ?_⟩
  · intro before
    rw [hends.run before [] (fun h => absurd h (by decide)), List.nil_append]
  · cases hsaid : statement? tokens with
    | none => simp [statements, hsaid]
    | some statement => simp [statements, hsaid]

/-- Lines say what each of them says. -/
theorem says_lines {all : List Text} {said : List (Option Statement)}
    (h : List.Forall₂ LineSays all said) : Says (Client.lines all) said.reduceOption := by
  induction h with
  | nil => exact says_nil
  | @cons _ first _ _ hline _ ih =>
    cases first with
    | none => exact hline.ended.append ih
    | some statement => exact hline.ended.append ih

/-- A line between others may say anything. -/
theorem Says.between {before after : List Text} {line : Text}
    {said others more : List Statement} (hbefore : Says (Client.lines before) said)
    (hline : Says (line ++ "\n") others) (hafter : Says (Client.lines after) more) :
    Says (Client.lines (before ++ line :: after)) (said ++ (others ++ more)) := by
  have hlines : Client.lines (before ++ line :: after) =
      Client.lines before ++ (line ++ "\n" ++ Client.lines after) := by
    simp only [Client.lines, List.flatMap_append, List.flatMap_cons]
  rw [hlines]
  exact hbefore.append (hline.append hafter)

/-- A source that says statements can be scanned, line end by line end. -/
theorem Says.scan {text : Text} {said : List Statement} (h : Says text said) :
    ∃ lines, scan text = some lines ∧ lineEnds text = lines.length ∧ statements lines = said := by
  obtain ⟨lines, hrun, hends, hsaid⟩ := h
  refine ⟨lines, ?_, hends, hsaid⟩
  rw [Script.scan, start, hrun []]
  rfl

/-- Plain text without an equals sign. -/
def Quiet (t : Text) : Prop := ∀ c ∈ t, c.isPlain = true ∧ c ≠ CodePoint.ofChar '='

instance (t : Text) : Decidable (Quiet t) :=
  inferInstanceAs (Decidable (∀ c ∈ t, c.isPlain = true ∧ c ≠ CodePoint.ofChar '='))

section

variable {s t : Text}

theorem Quiet.append (hs : Quiet s) (ht : Quiet t) : Quiet (s ++ t) :=
  List.forall_mem_append.mpr ⟨hs, ht⟩

theorem Quiet.plain (h : Quiet t) : Plain t := fun c hc => (h c hc).1

theorem Quiet.not_mem (h : Quiet t) : CodePoint.ofChar '=' ∉ t := fun hmem => (h _ hmem).2 rfl

theorem quiet_of_isPathPart (h : ∀ c ∈ t, isPathPart c = true) : Quiet t := by
  intro c hc
  refine ⟨isPlain_of_isPathPart (h c hc), ?_⟩
  rintro rfl
  exact absurd (h _ hc) (by decide)

end

theorem codes_append (s t : Text) : codes (s ++ t) = codes s ++ codes t := List.map_append

@[simp] theorem literals_codes (t : Text) : literals (codes t) = [] := by
  simp [literals, codes]

@[simp] theorem literals_append (line others : Line) :
    literals (line ++ others) = literals line ++ literals others := List.filterMap_append

theorem take_codes_ne {t : Text} (h : CodePoint.ofChar '=' ∉ t) :
    (codes t).take 3 ≠ codes " = " := by
  intro heq
  have hequals : Token.code '=' ∈ (codes t).take 3 := by
    rw [heq]
    decide
  obtain ⟨c, hc, hcode⟩ := List.mem_map.mp (List.mem_of_mem_take hequals)
  cases hcode
  exact h hc

theorem afterEquals_codes {t : Text} (h : CodePoint.ofChar '=' ∉ t) :
    afterEquals (codes t) = none := by
  induction t with
  | nil => rfl
  | cons c rest ih =>
    have htake := take_codes_ne h
    rw [codes, List.map_cons, ← codes] at htake ⊢
    rw [List.mem_cons, not_or] at h
    rw [afterEquals, if_neg htake, ih h.2]

theorem assignedTokens?_codes {t : Text} (h : CodePoint.ofChar '=' ∉ t) :
    assignedTokens? (codes t) = none := by
  rw [assignedTokens?, afterEquals_codes h, if_neg (take_codes_ne h), ite_self]

theorem skipBlanks_codes (t : Text) :
    skipBlanks (codes t) = codes (t.dropWhile fun c => c = ' ') := by
  rw [skipBlanks, codes, List.dropWhile_map]
  simp [codes, Function.comp_def]

theorem statement?_codes (t : Text) :
    statement? (codes t) = wordStatement? (codes (t.dropWhile fun c => c = ' ')) := by
  rw [statement?, skipBlanks_codes]
  cases t.dropWhile (fun c => c = CodePoint.ofChar ' ') with
  | nil => rfl
  | cons c rest => rfl

theorem splitRun_word {word rest : Text} (hword : ∀ c ∈ word, c.isIdentifierPart = true)
    (hstop : NotAhead CodePoint.isIdentifierPart rest) :
    splitRun CodePoint.isIdentifierPart (codes (word ++ rest)) = (word, codes rest) := by
  rw [codes, List.map_append]
  apply splitRun_codes hword
  intro c others heq
  cases rest with
  | nil => cases heq
  | cons d rest =>
    cases heq
    exact hstop

theorem lineSays_plain {line : Text} (hplain : Plain line) :
    LineSays line (statement? (codes line)) :=
  ⟨codes line, (readsAs_plain hplain).endsAs, rfl⟩

/-- A fixed line says what its characters say. -/
theorem lineSays_fixed {chars : List Char} {said : Option Statement}
    (hplain : Plain (chars.map CodePoint.ofChar))
    (hsaid : statement? (codes (chars.map CodePoint.ofChar)) = said) :
    LineSays (Text.ofString (String.ofList chars)) said := by
  rw [Text.ofString_eq rfl, ← hsaid]
  exact lineSays_plain hplain

theorem lineSays_blank : LineSays "" none := lineSays_plain (by decide)

/-- A comment says nothing. -/
theorem lineSays_comment {chars : List Char} {rest : Text}
    (hchars : ∀ c ∈ chars.map CodePoint.ofChar, 32 ≤ c.val) (hrest : ∀ c ∈ rest, 32 ≤ c.val) :
    LineSays (Text.ofString (String.ofList ('#' :: chars)) ++ rest) none := by
  rw [Text.ofString_eq rfl]
  exact ⟨[], endsAs_comment (List.forall_mem_append.mpr ⟨hchars, hrest⟩), rfl⟩

/-- Plain text at the front of a line, which a literal may follow. What the line says depends on the
tokens behind it. -/
structure Begins (opening : Text) (said : Line → Option Statement) : Prop where
  plain : Plain opening
  opens : Opens opening
  reads : ∀ tokens, statement? (codes opening ++ tokens) = said tokens

theorem Begins.fixed {chars : List Char} {said : Line → Option Statement}
    (hplain : Plain (chars.map CodePoint.ofChar)) (hopens : Opens (chars.map CodePoint.ofChar))
    (hreads : ∀ tokens, statement? (codes (chars.map CodePoint.ofChar) ++ tokens) = said tokens) :
    Begins (Text.ofString (String.ofList chars)) said :=
  Text.literal (Begins · said) ⟨hplain, hopens, hreads⟩

theorem lineSays_assigned (opening name : Text) {text : Text} {value : Value}
    (h : Begins opening fun tokens => (wholeValue? tokens).map (.assigned name))
    (hvalue : Denotes readValue text value) :
    LineSays (opening ++ text) (some (.assigned name value)) := by
  obtain ⟨tokens, hreads, hwhole⟩ := hvalue.exists_tokens
  refine ⟨codes opening ++ tokens, (hreads.behind h.plain h.opens).endsAs, ?_⟩
  rw [h.reads, hwhole, Option.map_some]

theorem skipBlanks_spaces (indent : Nat) (line : Line) :
    skipBlanks (codes (Text.spaces indent) ++ line) = skipBlanks line := by
  induction indent with
  | zero => rfl
  | succ indent ih => exact ih

theorem plain_spaces (indent : Nat) : Plain (Text.spaces indent) := by
  intro c hc
  rw [List.eq_of_mem_replicate hc]
  decide

theorem lineSays_doc (indent : Nat) {body value : Text}
    (hbody : Spells ⟨Text.doubleQuote, true⟩ body value) (hval : ∀ c ∈ body, 32 ≤ c.val) :
    LineSays (Text.spaces indent ++ ("\"\"\"" ++ body ++ "\"\"\"")) (some (.doc value)) := by
  have hdoc := readsAs_doc hbody hval
  have hsaid : statement? (codes (Text.spaces indent) ++ [.literal value]) =
      some (.doc value) := by
    rw [statement?, skipBlanks_spaces]
    rfl
  cases indent with
  | zero => exact ⟨[.literal value], hdoc.endsAs, rfl⟩
  | succ indent =>
    have hplain := plain_spaces (indent + 1)
    have hopens : Opens (Text.spaces (indent + 1)) := by
      rw [Opens, Text.spaces, List.getLast?_replicate]
      rfl
    exact ⟨_, (hdoc.behind hplain hopens).endsAs, hsaid⟩

/-- A documentation string in which fixed text stands behind a body. -/
theorem lineSays_docBefore (indent : Nat) {opening closing after body value : Text}
    (hopening : opening = Text.spaces indent ++ "\"\"\"")
    (hclosing : closing = after ++ "\"\"\"") (hafter : Unescaped after)
    (hbody : Spells ⟨Text.doubleQuote, true⟩ body value) (hval : ∀ c ∈ body, 32 ≤ c.val) :
    LineSays (opening ++ body ++ closing) (some (.doc (value ++ after))) := by
  have hline : opening ++ body ++ closing =
      Text.spaces indent ++ ("\"\"\"" ++ (body ++ after) ++ "\"\"\"") := by
    rw [hopening, hclosing]
    simp only [List.append_assoc]
  rw [hline]
  apply lineSays_doc indent (hbody.append hafter.spells)
  exact List.forall_mem_append.mpr ⟨hval, hafter.le_val⟩

/-- A documentation string in which fixed text stands around a body. -/
theorem lineSays_docAround (indent : Nat) {opening closing before after : List Char}
    {body value : Text}
    (hopening : opening = List.replicate indent ' ' ++ (['"', '"', '"'] ++ before))
    (hclosing : closing = after ++ ['"', '"', '"'])
    (hbefore : Unescaped (before.map CodePoint.ofChar))
    (hafter : Unescaped (after.map CodePoint.ofChar))
    (hbody : Spells ⟨Text.doubleQuote, true⟩ body value) (hval : ∀ c ∈ body, 32 ≤ c.val) :
    LineSays (Text.ofString (String.ofList opening) ++ body ++
        Text.ofString (String.ofList closing))
      (some (.doc (Text.ofString (String.ofList before) ++ value ++
        Text.ofString (String.ofList after)))) := by
  have hline : opening.map CodePoint.ofChar ++ body =
      (Text.spaces indent ++ "\"\"\"") ++ (before.map CodePoint.ofChar ++ body) := by
    rw [hopening, List.map_append, List.map_append, List.map_replicate, Text.spaces]
    simp only [List.append_assoc]
    rfl
  simp (disch := rfl) only [Text.ofString_eq]
  rw [hline]
  apply lineSays_docBefore indent rfl _ hafter (hbefore.spells.append hbody)
  · exact List.forall_mem_append.mpr ⟨hbefore.le_val, hval⟩
  · rw [hclosing, List.map_append]
    rfl

/-- A documentation string that is fixed. -/
theorem lineSays_docFixed (indent : Nat) {line : Text} {chars : List Char}
    (hline : line = Text.spaces indent ++ ("\"\"\"" ++ chars.map CodePoint.ofChar ++ "\"\"\""))
    (hchars : Unescaped (chars.map CodePoint.ofChar)) :
    LineSays line (some (.doc (Text.ofString (String.ofList chars)))) := by
  rw [hline]
  exact Text.literal (fun value => LineSays _ (some (.doc value)))
    (lineSays_doc indent hchars.spells hchars.le_val)

/-- The head of a class or function says its name. -/
theorem lineSays_head (opening keyword : Text) {name rest : Text}
    (h : Begins opening fun tokens => some (.head keyword (firstWord tokens)))
    (hname : ∀ c ∈ name, c.isIdentifierPart = true) (hrest : Plain rest)
    (hstop : NotAhead CodePoint.isIdentifierPart rest) :
    LineSays (opening ++ name ++ rest) (some (.head keyword name)) := by
  rw [List.append_assoc]
  have hplain : Plain (opening ++ (name ++ rest)) := by
    simp only [Text.plain_append]
    exact ⟨h.plain, Text.plain_of_isIdentifierPart hname, hrest⟩
  have hword : firstWord (codes (name ++ rest)) = name := by
    rw [firstWord, splitRun_word hname hstop]
  refine ⟨_, (readsAs_plain hplain).endsAs, ?_⟩
  rw [codes_append, h.reads, hword]

/-- What a plain line says may be clear from its beginning. -/
theorem lineSays_start (opening : Text) {rest : Text} {said : Option Statement}
    (hopening : Plain opening) (hrest : Plain rest)
    (h : ∀ tokens, statement? (codes opening ++ tokens) = said) :
    LineSays (opening ++ rest) said := by
  have hplain : Plain (opening ++ rest) := Text.plain_append.mpr ⟨hopening, hrest⟩
  rw [← h (codes rest), ← codes_append]
  exact lineSays_plain hplain

/-- A returned call says the literals among its arguments. -/
theorem lineSays_returned (opening callee : Text) {piece closing : Text} {tokens : Line}
    (h : Begins opening fun tokens => some (.returned callee (literals tokens)))
    (hpiece : ReadsAs piece tokens) (hclosing : Plain closing) (hne : closing ≠ []) :
    LineSays (opening ++ piece ++ closing) (some (.returned callee (literals tokens))) := by
  refine ⟨_, ((hpiece.behind h.plain h.opens).before hclosing hne).endsAs, ?_⟩
  rw [List.append_assoc, h.reads, literals_append, literals_codes, List.append_nil]

/-- A line that assigns nothing and starts with no keyword says nothing. -/
theorem lineSays_none (indent : Nat) (word : Text) {rest : Text}
    (hword : ∀ c ∈ word, c.isIdentifierPart = true) (hrest : Quiet rest)
    (hstart : NotAhead (fun c => c = ' ') (word ++ rest))
    (hstop : NotAhead CodePoint.isIdentifierPart rest)
    (hkeyword : afterKeyword? (codes rest) = none ∨ word ∉ [("class" : Text), "def", "return"]) :
    LineSays (Text.spaces indent ++ (word ++ rest)) none := by
  have hblanks : ∀ c ∈ Text.spaces indent, (decide (c = CodePoint.ofChar ' ')) = true := by
    intro c hc
    rw [List.eq_of_mem_replicate hc]
    rfl
  have hplain : Plain (Text.spaces indent ++ (word ++ rest)) := by
    simp only [Text.plain_append]
    exact ⟨plain_spaces indent, Text.plain_of_isIdentifierPart hword, hrest.plain⟩
  have hnone : statement? (codes (Text.spaces indent ++ (word ++ rest))) = none := by
    rw [statement?_codes, Text.dropWhile_run hblanks hstart, wordStatement?,
      splitRun_word hword hstop]
    simp only [assignedTokens?_codes hrest.not_mem, Option.bind_none, ite_self]
    rcases hkeyword with hafter | hother
    · simp [hafter]
    · simp only [List.mem_cons, List.not_mem_nil, or_false, not_or] at hother
      simp [hother]
  rw [← hnone]
  exact lineSays_plain hplain

end AbiBindings.Script
