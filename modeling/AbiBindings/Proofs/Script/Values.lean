import AbiBindings.Proofs.Script.Lines

/-!
Values in the source: names, numbers, texts, sequences of these, and maps from texts to either.
A reader takes a value off the tokens of a line. What is written for a literal value denotes that
value, however many items it has and whatever texts are among them.
-/

namespace AbiBindings.Script

open Text (Plain NotAhead quoted)
open Client (tupleLiteral mapLiteral)

inductive Value where
  | name (path : Text)
  | text (value : Text)
  | number (n : Nat)
  | tuple (items : List Value)
  | list (items : List Value)
  | map (entries : List (Text × Value))

def openBrace : CodePoint := .ofNat 0x7B

def closeBrace : CodePoint := .ofNat 0x7D

/-- What a reader takes off the front of a line, and the rest of the line. -/
abbrev Reader (α : Type) := Line → Option (α × Line)

def skipBlanks (line : Line) : Line := line.dropWhile fun token => token = .code ' '

def splitRun (p : CodePoint → Bool) : Line → Text × Line
  | .code c :: rest =>
    if p c then (c :: (splitRun p rest).1, (splitRun p rest).2) else ([], .code c :: rest)
  | line => ([], line)

/-- What names and numbers are made of; a name may have dots in it. -/
def isPathPart (c : CodePoint) : Bool := c.isIdentifierPart || c = '.'

/-- The value of a word: a number without leading zeros, or a name. -/
def wordValue? (word : Text) : Option Value :=
  if word.isEmpty then none
  else if word.all CodePoint.isDigit then
    if Text.ofNat (Text.decimalValue word) = word then some (.number (Text.decimalValue word))
    else none
  else some (.name word)

def readAtom : Reader Value
  | .literal value :: rest => some (.text value, rest)
  | line =>
    let (word, rest) := splitRun isPathPart line
    (wordValue? word).map fun value => (value, rest)

/-- Reads items with commas between them up to a closing bracket, at most `count` of them. The mark
says whether nothing stands between the last comma and the bracket. -/
def readItems {α : Type} (item : Reader α) (close : CodePoint) :
    (count : Nat) → Reader (List α × Bool)
  | 0, _ => none
  | count + 1, line =>
    if line.head? = some (.code close) then some (([], true), line.tail)
    else
      match item line with
      | some (first, .code c :: rest) =>
        if c = close then some (([first], false), rest)
        else if c = ',' then
          (readItems item close count (skipBlanks rest)).map fun ((others, comma), rest) =>
            ((first :: others, comma), rest)
        else none
      | _ => none

/-- Reads atoms in round or square brackets. One item in round brackets is no tuple without a
comma. -/
def readSequence : Reader Value
  | .code c :: rest =>
    if c = '(' then
      match readItems readAtom ')' (rest.length + 1) rest with
      | some ((items, comma), rest) =>
        if items.length = 1 ∧ comma = false then none else some (.tuple items, rest)
      | none => none
    else if c = '[' then
      (readItems readAtom ']' (rest.length + 1) rest).map fun ((items, _), rest) =>
        (.list items, rest)
    else none
  | _ => none

def readSimple : Reader Value := fun line => (readAtom line).or (readSequence line)

/-- Reads a text and, after a colon, an atom or a sequence. -/
def readEntry : Reader (Text × Value)
  | .literal key :: .code c :: rest =>
    if c = ':' then
      (readSimple (skipBlanks rest)).map fun (value, rest) => ((key, value), rest)
    else none
  | _ => none

def readMap : Reader Value
  | .code c :: rest =>
    if c = openBrace then
      (readItems readEntry closeBrace (rest.length + 1) rest).map fun ((entries, _), rest) =>
        (.map entries, rest)
    else none
  | _ => none

def readValue : Reader Value := fun line => (readSimple line).or (readMap line)

def wholeValue? (line : Line) : Option Value :=
  match readValue line with
  | some (value, []) => some value
  | _ => none

/-- The tokens that no item starts with: blanks and closing brackets. -/
def notFirst : Line := [.code ' ', .code ')', .code ']', .code closeBrace]

/-- Whether a word at the end of the line before would go on. -/
def Stops (line : Line) : Prop := ∀ c rest, line = .code c :: rest → isPathPart c = false

/-- A text denotes what a reader takes off its tokens, whatever follows them. -/
def Denotes {α : Type} (item : Reader α) (text : Text) (x : α) : Prop :=
  ∃ first others, ReadsAs text (first :: others) ∧ first ∉ notFirst ∧
    ∀ rest, Stops rest → item (first :: others ++ rest) = some (x, rest)

section

theorem stops_nil : Stops [] := by
  intro c rest h
  cases h

theorem stops_code {c : CodePoint} (hc : isPathPart c = false) (rest : Line) :
    Stops (.code c :: rest) := by
  rintro d others ⟨⟩
  exact hc

theorem splitRun_codes {p : CodePoint → Bool} {t : Text} (ht : ∀ c ∈ t, p c = true) {rest : Line}
    (hrest : ∀ c others, rest = .code c :: others → p c = false) :
    splitRun p (codes t ++ rest) = (t, rest) := by
  induction t with
  | nil =>
    cases rest with
    | nil => rfl
    | cons token others =>
      cases token with
      | code c =>
        have hc := hrest c others rfl
        simp [codes, splitRun, hc]
      | literal value => rfl
  | cons c t ih =>
    rw [List.forall_mem_cons] at ht
    have htail := ih ht.2
    simp only [codes, List.map_cons, List.cons_append, splitRun, ht.1, if_true] at htail ⊢
    rw [htail]

end

theorem denotes_text (t : Text) : Denotes readAtom (quoted t) (.text t) := by
  refine ⟨.literal t, [], readsAs_quoted t, ?first, ?read⟩
  case first => simp [notFirst]
  case read =>
    intro rest _
    rfl

theorem isPlain_of_isPathPart {c : CodePoint} (h : isPathPart c = true) : c.isPlain = true := by
  rw [isPathPart, Bool.or_eq_true] at h
  rcases h with hpart | hdot
  · exact CodePoint.isPlain_of_isIdentifierPart hpart
  · rw [of_decide_eq_true hdot]
    decide

theorem isPathPart_of_mem_notFirst {close : CodePoint} (h : .code close ∈ notFirst) :
    isPathPart close = false ∧ close ≠ CodePoint.ofChar ',' := by
  simp only [notFirst, List.mem_cons, Token.code.injEq, List.not_mem_nil, or_false] at h
  rcases h with rfl | rfl | rfl | rfl <;> decide

/-- A word denotes the number or the name that it is. -/
theorem denotes_word {t : Text} (ht : ∀ c ∈ t, isPathPart c = true) {value : Value}
    (hvalue : wordValue? t = some value) : Denotes readAtom t value := by
  cases t with
  | nil => cases hvalue
  | cons c t =>
    refine ⟨.code c, codes t, readsAs_plain fun d hd => isPlain_of_isPathPart (ht d hd), ?first,
      ?read⟩
    case first =>
      intro hmem
      have hc := (isPathPart_of_mem_notFirst hmem).1
      rw [ht c List.mem_cons_self] at hc
      exact absurd hc (by decide)
    case read =>
      intro rest hrest
      have hsplit : splitRun isPathPart (.code c :: codes t ++ rest) = (c :: t, rest) :=
        splitRun_codes ht hrest
      rw [List.cons_append] at hsplit ⊢
      simp only [readAtom, hsplit, hvalue, Option.map_some]

theorem denotes_number (n : Nat) : Denotes readAtom (Text.ofNat n) (.number n) := by
  apply denotes_word
  · intro c hc
    rw [isPathPart, CodePoint.isIdentifierPart_of_isDigit (Text.isDigit_of_mem_ofNat hc)]
    rfl
  · have hempty : (Text.ofNat n).isEmpty = false := by
      simpa using Text.ofNat_ne_nil n
    have hdigits : (Text.ofNat n).all CodePoint.isDigit = true :=
      List.all_eq_true.mpr fun c hc => Text.isDigit_of_mem_ofNat hc
    simp [wordValue?, hempty, hdigits, Text.decimalValue_ofNat]

theorem Denotes.simple {t : Text} {value : Value} (h : Denotes readAtom t value) :
    Denotes readSimple t value := by
  obtain ⟨first, others, hreads, hfirst, hread⟩ := h
  refine ⟨first, others, hreads, hfirst, ?_⟩
  intro rest hrest
  rw [readSimple, hread rest hrest, Option.some_or]

theorem Denotes.value {t : Text} {value : Value} (h : Denotes readSimple t value) :
    Denotes readValue t value := by
  obtain ⟨first, others, hreads, hfirst, hread⟩ := h
  refine ⟨first, others, hreads, hfirst, ?_⟩
  intro rest hrest
  rw [readValue, hread rest hrest, Option.some_or]

/-- The tokens of a text that denotes a value spell that value and nothing else. -/
theorem Denotes.exists_tokens {t : Text} {value : Value} (h : Denotes readValue t value) :
    ∃ tokens, ReadsAs t tokens ∧ wholeValue? tokens = some value := by
  obtain ⟨first, others, hreads, -, hread⟩ := h
  have hwhole := hread [] stops_nil
  rw [List.append_nil] at hwhole
  refine ⟨first :: others, hreads, ?_⟩
  rw [wholeValue?, hwhole]

theorem skipBlanks_eq_self {first : Token} (h : first ∉ notFirst) (others : Line) :
    skipBlanks (first :: others) = first :: others := by
  have hblank : first ≠ .code ' ' := by
    rintro rfl
    exact h List.mem_cons_self
  rw [skipBlanks, List.dropWhile_cons_of_neg]
  simpa using hblank

section

variable {α : Type} {item : Reader α} {close : CodePoint} {line rest : Line} {x : α}

theorem readItems_close (item : Reader α) (count : Nat) :
    readItems item close (count + 1) (.code close :: rest) = some (([], true), rest) := by
  have hhead : (Token.code close :: rest).head? = some (.code close) := rfl
  rw [readItems, if_pos hhead]
  rfl

theorem readItems_last (count : Nat) (hhead : line.head? ≠ some (.code close))
    (h : item line = some (x, .code close :: rest)) :
    readItems item close (count + 1) line = some (([x], false), rest) := by
  rw [readItems, if_neg hhead, h]
  simp

theorem readItems_comma (count : Nat) (hhead : line.head? ≠ some (.code close))
    (hclose : close ≠ CodePoint.ofChar ',') (h : item line = some (x, .code ',' :: rest)) :
    readItems item close (count + 1) line =
      (readItems item close count (skipBlanks rest)).map fun found =>
        ((x :: found.1.1, found.1.2), found.2) := by
  rw [readItems, if_neg hhead, h]
  simp [hclose.symm]

end

/-- Items with commas between them are read one after the other up to the bracket. -/
theorem exists_items {α β : Type} {item : Reader β} {items : List α} {text : α → Text}
    {value : α → β} (hne : items ≠ [])
    (h : ∀ x ∈ items, Denotes item (text x) (value x)) :
    ∃ first others, ReadsAs (Text.join ", " (items.map text)) (first :: others) ∧
      first ∉ notFirst ∧ items.length ≤ others.length + 1 ∧
      ∀ close, .code close ∈ notFirst → ∀ count rest, items.length ≤ count →
        readItems item close count (first :: others ++ .code close :: rest) =
          some ((items.map value, false), rest) := by
  induction items with
  | nil => exact absurd rfl hne
  | cons x xs ih =>
    rw [List.forall_mem_cons] at h
    obtain ⟨⟨first, others, hreads, hfirst, hitem⟩, hxs⟩ := h
    have hhead (close : CodePoint) (hclose : .code close ∈ notFirst) (line : Line) :
        (first :: others ++ line).head? ≠ some (.code close) := by
      rw [List.cons_append, List.head?_cons, ne_eq, Option.some.injEq]
      rintro rfl
      exact hfirst hclose
    cases xs with
    | nil =>
      refine ⟨first, others, hreads, hfirst, Nat.le_add_left _ _, ?_⟩
      intro close hclose count rest hcount
      obtain ⟨count, rfl⟩ := Nat.exists_eq_add_of_le' hcount
      have hstops := stops_code (isPathPart_of_mem_notFirst hclose).1 rest
      exact readItems_last count (hhead close hclose _) (hitem _ hstops)
    | cons y ys =>
      obtain ⟨next, more, hmore, hnext, hlength, hitems⟩ := ih (List.cons_ne_nil _ _) hxs
      have hplain : Plain ", " := by decide
      have hcomma := hmore.behind hplain (by decide)
      refine ⟨first, others ++ (codes ", " ++ next :: more), ?pieces, hfirst, ?lengths, ?read⟩
      case pieces =>
        rw [List.map_cons, List.map_cons, Text.join, List.append_assoc]
        exact hreads.append hcomma (List.append_ne_nil_of_left_ne_nil (by decide) _) rfl
      case lengths =>
        simp only [List.length_cons, List.length_append] at hlength ⊢
        omega
      case read =>
        intro close hclose count rest hcount
        obtain ⟨count, rfl⟩ := Nat.exists_eq_succ_of_ne_zero (Nat.ne_zero_of_lt hcount)
        let behind : Line := next :: (more ++ .code close :: rest)
        have hcodes : codes ", " = [.code ',', .code ' '] := rfl
        have hline : first :: (others ++ (codes ", " ++ next :: more)) ++ .code close :: rest =
            first :: others ++ .code ',' :: .code ' ' :: behind := by
          simp [hcodes, behind]
        have hread := hitem (.code ',' :: .code ' ' :: behind) (stops_code (by decide) _)
        have hcomma := (isPathPart_of_mem_notFirst hclose).2
        have hblank : skipBlanks (.code ' ' :: behind) = behind :=
          skipBlanks_eq_self hnext _
        have htail := hitems close hclose count rest (Nat.le_of_succ_le_succ hcount)
        rw [hline, readItems_comma count (hhead close hclose _) hcomma hread, hblank]
        rw [List.cons_append] at htail
        rw [htail]
        rfl

section

variable {α β : Type} {items : List α} {text : α → Text}

/-- Items between two brackets, with commas between them, are all that stands between these. -/
theorem exists_enclosed {item : Reader β} {value : α → β} (opening closing : CodePoint)
    (hopening : Plain [opening] ∧ Opens [opening])
    (hclosing : Plain [closing] ∧ .code closing ∈ notFirst) (hne : items ≠ [])
    (h : ∀ x ∈ items, Denotes item (text x) (value x)) :
    ∃ line, ReadsAs ([opening] ++ Text.join ", " (items.map text) ++ [closing])
        (.code opening :: line) ∧
      ∀ rest, readItems item closing ((line ++ rest).length + 1) (line ++ rest) =
        some ((items.map value, false), rest) := by
  obtain ⟨first, others, hreads, -, hlength, hitems⟩ := exists_items hne h
  have hpiece := (hreads.behind hopening.1 hopening.2).before hclosing.1 (List.cons_ne_nil _ _)
  refine ⟨first :: others ++ codes [closing], hpiece, ?_⟩
  intro rest
  have hline : first :: others ++ codes [closing] ++ rest =
      first :: others ++ .code closing :: rest := by
    rw [List.append_assoc]
    rfl
  have hcount : items.length ≤ (first :: others ++ .code closing :: rest).length + 1 := by
    simp only [List.length_append, List.length_cons]
    omega
  rw [hline]
  exact hitems closing hclosing.2 _ rest hcount

variable {value : α → Value}

theorem readSimple_round {values : List Value} {comma : Bool} {line rest : Line}
    (h : readItems readAtom ')' (line.length + 1) line = some ((values, comma), rest))
    (hcomma : ¬ (values.length = 1 ∧ comma = false)) :
    readSimple (.code '(' :: line) = some (.tuple values, rest) := by
  have hatom : readAtom (.code '(' :: line) = none := rfl
  rw [readSimple, hatom, Option.none_or]
  simp only [readSequence, if_true, h, if_neg hcomma]

/-- Items in round brackets denote a tuple, a single one because of the comma after it. -/
theorem denotes_tuple (h : ∀ x ∈ items, Denotes readAtom (text x) (value x)) :
    Denotes readSimple (tupleLiteral (items.map text)) (.tuple (items.map value)) := by
  match items with
  | [] =>
    have hplain : Plain "()" := by decide
    refine ⟨.code '(', [.code ')'], readsAs_plain hplain, by decide, ?_⟩
    intro rest _
    rfl
  | [x] =>
    obtain ⟨first, others, hreads, hfirst, hitem⟩ := h x (List.mem_singleton_self x)
    have hopening : Plain "(" := by decide
    have hclosing : Plain ",)" := by decide
    have hpiece := (hreads.behind hopening (by decide)).before hclosing (by decide)
    refine ⟨.code '(', first :: others ++ codes ",)", hpiece, by decide, ?_⟩
    intro rest _
    have hline : first :: others ++ codes ",)" ++ rest =
        first :: others ++ .code ',' :: .code ')' :: rest := by
      rw [List.append_assoc]
      rfl
    have hread := hitem (.code ',' :: .code ')' :: rest) (stops_code (by decide) _)
    have hhead : (first :: others ++ .code ',' :: .code ')' :: rest).head? ≠ some (.code ')') := by
      rw [List.cons_append, List.head?_cons, ne_eq, Option.some.injEq]
      rintro rfl
      exact hfirst (by decide)
    have hitems (count : Nat) : readItems readAtom ')' (count + 2)
        (first :: others ++ .code ',' :: .code ')' :: rest) = some (([value x], true), rest) := by
      rw [readItems_comma _ hhead (by decide) hread]
      exact congrArg _ (readItems_close readAtom count)
    rw [List.cons_append, hline]
    exact readSimple_round (hitems _) (by simp)
  | x :: y :: ys =>
    obtain ⟨line, hpiece, hitems⟩ := exists_enclosed '(' ')' (by decide) (by decide)
      (List.cons_ne_nil x (y :: ys)) h
    refine ⟨.code '(', line, hpiece, by decide, ?_⟩
    intro rest _
    exact readSimple_round (hitems rest) (by simp)

theorem denotes_list (hne : items ≠ []) (h : ∀ x ∈ items, Denotes readAtom (text x) (value x)) :
    Denotes readSimple ("[" ++ Text.join ", " (items.map text) ++ "]")
      (.list (items.map value)) := by
  obtain ⟨line, hpiece, hitems⟩ := exists_enclosed '[' ']' (by decide) (by decide) hne h
  refine ⟨.code '[', line, hpiece, by decide, ?_⟩
  intro rest _
  have hatom : readAtom (.code '[' :: (line ++ rest)) = none := rfl
  rw [List.cons_append, readSimple, hatom, Option.none_or, readSequence, if_neg (by decide),
    if_pos rfl, hitems rest]
  rfl

theorem denotes_entry {key text : Text} {value : Value} (h : Denotes readSimple text value) :
    Denotes readEntry (quoted key ++ ": " ++ text) (key, value) := by
  obtain ⟨first, others, hreads, hfirst, hread⟩ := h
  have hplain : Plain ": " := by decide
  have hpiece := (readsAs_quoted key).append (hreads.behind hplain (by decide))
    (List.append_ne_nil_of_left_ne_nil (by decide) _) rfl
  rw [← List.append_assoc] at hpiece
  refine ⟨.literal key, codes ": " ++ first :: others, hpiece, by simp [notFirst], ?_⟩
  intro rest hrest
  have hblank : skipBlanks (.code ' ' :: first :: others ++ rest) = first :: others ++ rest :=
    skipBlanks_eq_self hfirst _
  have hvalue : readEntry (.literal key :: .code ':' :: (.code ' ' :: first :: others ++ rest)) =
      some ((key, value), rest) := by
    simp only [readEntry, if_true, hblank, hread rest hrest, Option.map_some]
  exact hvalue

/-- Entries in braces denote a map with the keys that are quoted, in order. -/
theorem denotes_map {key : α → Text} (h : ∀ x ∈ items, Denotes readSimple (text x) (value x)) :
    Denotes readValue (mapLiteral (items.map fun x => (quoted (key x), text x)))
      (.map (items.map fun x => (key x, value x))) := by
  rw [mapLiteral, List.map_map]
  by_cases hempty : items = []
  · rw [hempty]
    have hplain : Plain "\x7b\x7d" := by decide
    refine ⟨.code openBrace, [.code closeBrace], readsAs_plain hplain, by decide, ?_⟩
    intro rest _
    rfl
  have hentries : ∀ x ∈ items, Denotes readEntry (quoted (key x) ++ ": " ++ text x)
      (key x, value x) := fun x hx => denotes_entry (h x hx)
  obtain ⟨line, hpiece, hitems⟩ := exists_enclosed openBrace closeBrace (by decide) (by decide)
    hempty hentries
  refine ⟨.code openBrace, line, hpiece, by decide, ?_⟩
  intro rest _
  have hsimple : readSimple (.code openBrace :: (line ++ rest)) = none := rfl
  rw [List.cons_append, readValue, hsimple, Option.none_or, readMap, if_pos rfl, hitems rest]
  rfl

end

end AbiBindings.Script
