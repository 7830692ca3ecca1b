import AbiBindings.Proofs.Text.Run
import AbiBindings.Text.Quoted

/-!
The lexical rules of the generated language, as far as string literals go. A scanner takes source
text one code point at a time and leaves its lines as tokens: literals by their values, everything
else outside comments as it stands. What needs more than these rules is refused: carriage returns,
lines joined by a backslash, and literals with a prefix.
-/

namespace AbiBindings.Script

open Text (singleQuote doubleQuote backslash)

inductive Token where
  /-- A code point outside literals. -/
  | code (c : CodePoint)
  /-- A string literal, by its value. -/
  | literal (value : Text)
deriving DecidableEq, Repr

/-- The tokens up to a line end outside literals. -/
abbrev Line := List Token

def codes (t : Text) : Line := t.map Token.code

def literals (line : Line) : List Text :=
  line.filterMap fun token =>
    match token with
    | .code _ => none
    | .literal value => some value

/-- Whether a line so far ends in a word, which would be the prefix of a literal. -/
def endsInWord (line : Line) : Bool :=
  line.getLast?.any fun token =>
    match token with
    | .code c => c.isIdentifierPart
    | .literal _ => false

/-- What stands around a literal: its mark, once or three times on either side. -/
structure Delimiter where
  mark : CodePoint
  long : Bool
deriving DecidableEq, Repr

inductive Mode where
  /-- Outside literals and comments. -/
  | code
  /-- In a comment. -/
  | comment
  /-- After the first mark of a literal. -/
  | opened (mark : CodePoint)
  /-- After two marks: behind an empty literal, unless a third one follows. -/
  | openedTwice (mark : CodePoint)
  /-- In a literal with the value read so far. -/
  | inside (d : Delimiter) (value : Text)
  /-- In a literal with three marks, after one or two of them. -/
  | closing (mark : CodePoint) (value : Text) (count : Nat)
  /-- After a backslash in a literal. -/
  | escape (d : Delimiter) (value : Text)
  /-- In an escape by up to three octal digits. -/
  | octal (d : Delimiter) (value digits : Text)
  /-- In an escape by hexadecimal digits, `width` of them in all. -/
  | number (d : Delimiter) (value : Text) (width : Nat) (digits : Text)
deriving DecidableEq, Repr

/-- The lines read, the line begun, and where the next code point stands. -/
structure State where
  lines : List Line
  line : Line
  mode : Mode
deriving DecidableEq, Repr

def start : State := ⟨[], [], .code⟩

def escapes : List (CodePoint × CodePoint) :=
  [(backslash, backslash), (singleQuote, singleQuote), (doubleQuote, doubleQuote),
   ('a', .ofNat 7), ('b', .ofNat 8), ('t', '\t'), ('n', '\n'), ('v', .ofNat 11), ('f', .ofNat 12),
   ('r', '\r')]

def isOctalDigit (c : CodePoint) : Bool := decide (48 ≤ c.val) && decide (c.val ≤ 55)

def octalValue (digits : Text) : Nat := digits.foldl (fun n d => n * 8 + d.digitValue) 0

def isQuote (c : CodePoint) : Bool := c = singleQuote || c = doubleQuote

/-- What the code point after a backslash does. A line end stands for nothing, an escape by name is
refused, and a backslash in front of any other code point stands for itself. -/
def Mode.afterBackslash (d : Delimiter) (value : Text) (c : CodePoint) : Option Mode :=
  if c = '\n' then some (.inside d value)
  else if c = 'x' then some (.number d value 2 [])
  else if c = 'u' then some (.number d value 4 [])
  else if c = 'U' then some (.number d value 8 [])
  else if c = 'N' then none
  else if isOctalDigit c then some (.octal d value [c])
  else
    match escapes.lookup c with
    | some meant => some (.inside d (value ++ [meant]))
    | none => some (.inside d (value ++ [backslash, c]))

def Mode.afterDigit (d : Delimiter) (value : Text) (width : Nat) (digits : Text) (c : CodePoint) :
    Option Mode :=
  let spelled := digits ++ [c]
  if !c.isHexDigit then none
  else if spelled.length < width then some (.number d value width spelled)
  else if Text.hexValue spelled < 0x110000 then
    some (.inside d (value ++ [.ofNat (Text.hexValue spelled)]))
  else none

namespace State

def endLine (s : State) : State := ⟨s.lines ++ [s.line], [], .code⟩

def emit (s : State) (token : Token) : State := ⟨s.lines, s.line ++ [token], .code⟩

def readCode (s : State) (c : CodePoint) : Option State :=
  if c = '\n' then some s.endLine
  else if c = '#' then some { s with mode := .comment }
  else if c = backslash then none
  else if isQuote c then
    if endsInWord s.line then none else some { s with mode := .opened c }
  else some (s.emit (.code c))

/-- Reads a code point of a literal. A line end is only for a literal with three marks. -/
def readLiteral (s : State) (d : Delimiter) (value : Text) (c : CodePoint) : Option State :=
  if c = d.mark then
    if d.long then some { s with mode := .closing d.mark value 1 }
    else some (s.emit (.literal value))
  else if c = backslash then some { s with mode := .escape d value }
  else if c = '\n' ∧ d.long = false then none
  else some { s with mode := .inside d (value ++ [c]) }

def read (s : State) (c : CodePoint) : Option State :=
  match s.mode with
  | .code => s.readCode c
  | .comment => some (if c = '\n' then s.endLine else s)
  | .opened mark =>
    if c = mark then some { s with mode := .openedTwice mark }
    else s.readLiteral ⟨mark, false⟩ [] c
  | .openedTwice mark =>
    if c = mark then some { s with mode := .inside ⟨mark, true⟩ [] }
    else (s.emit (.literal [])).readCode c
  | .inside d value => s.readLiteral d value c
  | .closing mark value count =>
    if c = mark then
      if count = 2 then some (s.emit (.literal value))
      else some { s with mode := .closing mark value (count + 1) }
    else s.readLiteral ⟨mark, true⟩ (value ++ List.replicate count mark) c
  | .escape d value => (Mode.afterBackslash d value c).map fun mode => { s with mode }
  | .octal d value digits =>
    if isOctalDigit c ∧ digits.length < 3 then
      some { s with mode := .octal d value (digits ++ [c]) }
    else s.readLiteral d (value ++ [.ofNat (octalValue digits)]) c
  | .number d value width digits =>
    (Mode.afterDigit d value width digits c).map fun mode => { s with mode }

/-- Reads a code point; a carriage return and the null character are refused everywhere. -/
def step (s : State) (c : CodePoint) : Option State :=
  if c = '\r' ∨ c.val = 0 then none else s.read c

def run (s : State) (t : Text) : Option State := t.foldlM step s

end State

/-- The lines of a source whose last line is ended too. -/
def scan (source : Text) : Option (List Line) :=
  match start.run source with
  | some ⟨lines, [], .code⟩ => some lines
  | _ => none

namespace State

theorem run_nil (s : State) : s.run [] = some s := rfl

theorem run_cons (s : State) (c : CodePoint) (t : Text) :
    s.run (c :: t) = (s.step c).bind fun next => next.run t := rfl

theorem run_append (s : State) (t rest : Text) :
    s.run (t ++ rest) = (s.run t).bind fun next => next.run rest := List.foldlM_append

section

variable {lines : List Line} {line : Line} {mark c : CodePoint} {d : Delimiter}
  {value digits : Text} {count width : Nat}

theorem read_code :
    (State.mk lines line .code).read c = (State.mk lines line .code).readCode c := rfl

theorem read_comment : (State.mk lines line .comment).read c =
    some (if c = '\n' then ⟨lines ++ [line], [], .code⟩ else ⟨lines, line, .comment⟩) := rfl

theorem read_opened : (State.mk lines line (.opened mark)).read c =
    if c = mark then some ⟨lines, line, .openedTwice mark⟩
    else (State.mk lines line (.opened mark)).readLiteral ⟨mark, false⟩ [] c := rfl

theorem read_openedTwice : (State.mk lines line (.openedTwice mark)).read c =
    if c = mark then some ⟨lines, line, .inside ⟨mark, true⟩ []⟩
    else (State.mk lines (line ++ [.literal []]) .code).readCode c := rfl

theorem read_inside : (State.mk lines line (.inside d value)).read c =
    (State.mk lines line (.inside d value)).readLiteral d value c := rfl

theorem read_closing : (State.mk lines line (.closing mark value count)).read c =
    if c = mark then
      if count = 2 then some ⟨lines, line ++ [.literal value], .code⟩
      else some ⟨lines, line, .closing mark value (count + 1)⟩
    else (State.mk lines line (.closing mark value count)).readLiteral ⟨mark, true⟩
      (value ++ List.replicate count mark) c := rfl

theorem read_escape : (State.mk lines line (.escape d value)).read c =
    (Mode.afterBackslash d value c).map fun mode => ⟨lines, line, mode⟩ := rfl

theorem read_number : (State.mk lines line (.number d value width digits)).read c =
    (Mode.afterDigit d value width digits c).map fun mode => ⟨lines, line, mode⟩ := rfl

end

end State

end AbiBindings.Script
