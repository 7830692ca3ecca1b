import AbiBindings.Json.Basic

/-!
Reading a JSON value from text. The reader never skips what it does not understand: the first
place where the text leaves the grammar is reported by line and column, both counted in code
points from one. Numbers take the longest text that is one; an integer of more digits than a limit
is refused, and `Json.read` sets the limit to `digitLimit`; `NaN` and the infinities are accepted.
Two escapes that spell a surrogate pair are one code point, and a surrogate escape that stands
alone stays what it is.
-/

namespace AbiBindings.Json

inductive SyntaxError where
  | expectingValue
  | expectingName
  | expectingColon
  | expectingComma
  | unterminatedString
  | controlCharacter
  | invalidEscape
  | invalidUnicodeEscape
  | extraData
  | byteOrderMark
deriving DecidableEq, Repr

def SyntaxError.message : SyntaxError → Text
  | expectingValue => "Expecting value"
  | expectingName => "Expecting property name enclosed in double quotes"
  | expectingColon => "Expecting ':' delimiter"
  | expectingComma => "Expecting ',' delimiter"
  | unterminatedString => "Unterminated string starting at"
  | controlCharacter => "Invalid control character at"
  | invalidEscape => "Invalid \\escape"
  | invalidUnicodeEscape => "Invalid \\uXXXX escape"
  | extraData => "Extra data"
  | byteOrderMark => "Unexpected UTF-8 BOM (decode using utf-8-sig)"

/-- Why reading stops, with what is left of the text from the offending place on. -/
inductive Stop where
  | malformed (error : SyntaxError) (rest : Text)
  | integerTooLong (digits : Nat)
deriving DecidableEq, Repr

inductive ReadError where
  | malformed (error : SyntaxError) (line column : Nat)
  | integerTooLong (digits : Nat)
deriving DecidableEq, Repr

def isTokenBlank (c : CodePoint) : Bool :=
  c.val == 32 || c.val == 9 || c.val == 10 || c.val == 13

def skipBlanks (t : Text) : Text := t.dropWhile isTokenBlank

def unescapeLetter? (c : CodePoint) : Option CodePoint :=
  if c = '"' ∨ c = '\\' ∨ c = '/' then some c
  else if c = 'b' then some (CodePoint.ofNat 8)
  else if c = 'f' then some (CodePoint.ofNat 12)
  else if c = 'n' then some '\n'
  else if c = 'r' then some '\r'
  else if c = 't' then some '\t'
  else none

def unescapeNumber? (a b c d : CodePoint) : Option CodePoint :=
  if a.isHexDigit && b.isHexDigit && c.isHexDigit && d.isHexDigit then
    some (CodePoint.ofNat (Text.hexValue [a, b, c, d]))
  else none

/-- Puts a code point before what was read. A high surrogate before a low one joins it, if both
came from escapes. -/
def joinEscape (c : CodePoint) (startsWithEscape : Bool) (read : Text) : Text :=
  match read with
  | low :: rest =>
    if c.isHighSurrogate && startsWithEscape && low.isLowSurrogate then
      CodePoint.ofSurrogates c low :: rest
    else c :: read
  | [] => [c]

def startsWithNumericEscape : Text → Bool
  | a :: b :: _ => a = '\\' && b = 'u'
  | _ => false

/-- The string up to its closing quote, and the text after the quote. `whole` is the text from the
opening quote on. -/
def readString (whole : Text) : Text → Except Stop (Text × Text)
  | [] => .error (.malformed .unterminatedString whole)
  | c :: rest =>
    if c = '"' then .ok ([], rest)
    else if c = '\\' then
      match rest with
      | [] => .error (.malformed .unterminatedString whole)
      | e :: tail =>
        if e = 'u' then
          match tail with
          | h₁ :: h₂ :: h₃ :: h₄ :: after =>
            if after.isEmpty then .error (.malformed .invalidUnicodeEscape (e :: tail))
            else
              match unescapeNumber? h₁ h₂ h₃ h₄ with
              | none => .error (.malformed .invalidUnicodeEscape (e :: tail))
              | some code => do
                let (read, left) ← readString whole after
                return (joinEscape code (startsWithNumericEscape after) read, left)
          | _ => .error (.malformed .invalidUnicodeEscape (e :: tail))
        else
          match unescapeLetter? e with
          | none => .error (.malformed .invalidEscape (c :: rest))
          | some code => do
            let (read, left) ← readString whole tail
            return (code :: read, left)
    else if c.val < 0x20 then .error (.malformed .controlCharacter (c :: rest))
    else do
      let (read, left) ← readString whole rest
      return (c :: read, left)

/-- The digits of the whole part: a lone zero, or a run that does not start with one. -/
def wholeDigits (t : Text) : Text :=
  match t with
  | c :: _ => if c = '0' then [c] else t.takeWhile CodePoint.isDigit
  | [] => []

/-- The digits after a decimal point; none if no digit follows the point. -/
def fractionDigits (t : Text) : Text :=
  match t with
  | c :: rest => if c = '.' then rest.takeWhile CodePoint.isDigit else []
  | [] => []

/-- The exponent and the number of code points that spell it; a mark without digits is none. -/
def exponentPart (t : Text) : Option (Int × Nat) :=
  match t with
  | e :: rest =>
    if e = 'e' ∨ e = 'E' then
      let negative := rest.head? == some '-'
      let signed := negative || rest.head? == some '+'
      let digits := (if signed then rest.drop 1 else rest).takeWhile CodePoint.isDigit
      let value : Int := Text.decimalValue digits
      if digits.isEmpty then none
      else some (if negative then -value else value, 1 + (if signed then 1 else 0) + digits.length)
    else none
  | [] => none

/-- The number at the start of a text, and the text after it. It is an integer unless it has a
fraction or an exponent. -/
def readNumber (limit : Option Nat) (t : Text) : Except Stop (Json × Text) :=
  let negative := t.head? == some '-'
  let body := if negative then t.drop 1 else t
  let whole := wholeDigits body
  let afterWhole := body.drop whole.length
  let fraction := fractionDigits afterWhole
  let afterFraction :=
    if fraction.isEmpty then afterWhole else afterWhole.drop (fraction.length + 1)
  if whole.isEmpty then .error (.malformed .expectingValue t)
  else
    match exponentPart afterFraction with
    | some (exponent, length) =>
      .ok (.float (.ofDecimal negative (Text.decimalValue (whole ++ fraction))
        (exponent - fraction.length)), afterFraction.drop length)
    | none =>
      if fraction.isEmpty then
        if limit.any (· < whole.length) then .error (.integerTooLong whole.length)
        else
          let value : Int := Text.decimalValue whole
          .ok (.int (if negative then -value else value), afterWhole)
      else
        .ok (.float (.ofDecimal negative (Text.decimalValue (whole ++ fraction))
          (-(fraction.length : Int))), afterFraction)

def words : List (Text × Json) :=
  [("null", .null), ("true", .bool true), ("false", .bool false), ("NaN", .float .nan),
    ("Infinity", .float (.infinite false)), ("-Infinity", .float (.infinite true))]

/-- The word or number at the start of a text, and the text after it. -/
def readScalar (limit : Option Nat) (t : Text) : Except Stop (Json × Text) :=
  match words.find? fun word => Text.startsWith t word.1 with
  | some (word, value) => .ok (value, t.drop word.length)
  | none => readNumber limit t

mutual

/-- The value at the start of a text, and the text after it. `depth` bounds the steps into parts.
Every array or object takes a code point for its bracket and two steps, one into the list of its
parts and one into a part, so one step more than twice the length of the text is enough. -/
def readValue (limit : Option Nat) : (depth : Nat) → Text → Except Stop (Json × Text)
  | 0, t => .error (.malformed .expectingValue t)
  | _ + 1, [] => .error (.malformed .expectingValue [])
  | depth + 1, c :: rest =>
    if c = '"' then do
      let (value, left) ← readString (c :: rest) rest
      return (.str value, left)
    else if c = '[' then
      match skipBlanks rest with
      | d :: left => if d = ']' then .ok (.arr [], left) else do
        let (items, left) ← readItems limit depth (d :: left)
        return (.arr items, left)
      | [] => .error (.malformed .expectingValue [])
    else if c.val = 0x7B then
      match skipBlanks rest with
      | d :: left => if d.val = 0x7D then .ok (.obj [], left) else do
        let (fields, left) ← readFields limit depth (d :: left)
        return (.obj (putAll [] fields), left)
      | [] => .error (.malformed .expectingName [])
    else readScalar limit (c :: rest)

/-- The items of an array from the first token of one on, and the text after the bracket. -/
def readItems (limit : Option Nat) : (depth : Nat) → Text → Except Stop (List Json × Text)
  | 0, t => .error (.malformed .expectingValue t)
  | depth + 1, t => do
    let (item, afterItem) ← readValue limit depth t
    match skipBlanks afterItem with
    | c :: left =>
      if c = ']' then return ([item], left)
      else if c = ',' then
        let (items, left) ← readItems limit depth (skipBlanks left)
        return (item :: items, left)
      else .error (.malformed .expectingComma (c :: left))
    | [] => .error (.malformed .expectingComma [])

/-- The fields of an object from the first token of one on, repeated keys included, and the text
after the brace. -/
def readFields (limit : Option Nat) :
    (depth : Nat) → Text → Except Stop (List (Text × Json) × Text)
  | 0, t => .error (.malformed .expectingName t)
  | depth + 1, t =>
    match t with
    | [] => .error (.malformed .expectingName [])
    | c :: rest =>
      if c ≠ '"' then .error (.malformed .expectingName (c :: rest))
      else do
        let (key, afterKey) ← readString (c :: rest) rest
        match skipBlanks afterKey with
        | colon :: beforeValue =>
          if colon ≠ ':' then .error (.malformed .expectingColon (colon :: beforeValue))
          else
            let (value, afterValue) ← readValue limit depth (skipBlanks beforeValue)
            match skipBlanks afterValue with
            | d :: left =>
              if d.val = 0x7D then return ([(key, value)], left)
              else if d = ',' then
                let (fields, left) ← readFields limit depth (skipBlanks left)
                return ((key, value) :: fields, left)
              else .error (.malformed .expectingComma (d :: left))
            | [] => .error (.malformed .expectingComma [])
        | [] => .error (.malformed .expectingColon [])

end

/-- The value that makes up a text but for blanks around it, with a limit for the digits of
integers or without one. -/
def readAll (limit : Option Nat) (t : Text) : Except Stop Json := do
  if t.head? == some (CodePoint.ofNat 0xFEFF) then .error (.malformed .byteOrderMark t)
  let (value, left) ← readValue limit (2 * t.length + 1) (skipBlanks t)
  match skipBlanks left with
  | [] => return value
  | rest => .error (.malformed .extraData rest)

def placeOf (t rest : Text) : Nat × Nat :=
  let before := t.take (t.length - rest.length)
  let lastLine := before.reverse.takeWhile fun c => c != ('\n' : CodePoint)
  (before.count ('\n' : CodePoint) + 1, lastLine.length + 1)

def read (t : Text) : Except ReadError Json :=
  match readAll (some digitLimit) t with
  | .ok value => .ok value
  | .error (.integerTooLong digits) => .error (.integerTooLong digits)
  | .error (.malformed error rest) =>
    let place := placeOf t rest
    .error (.malformed error place.1 place.2)

end AbiBindings.Json
