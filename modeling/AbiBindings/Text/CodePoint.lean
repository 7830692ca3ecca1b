/-!
A code point and its classes. A surrogate that stands alone is a code point like any other, so a
text that no UTF-8 sequence spells can still be held, compared and reported; only
`AbiBindings.Text.Utf8` refuses it. Every class below is a condition on the number alone.
-/

namespace AbiBindings

structure CodePoint where
  val : Nat
  lt : val < 0x110000
deriving DecidableEq, Repr

/-- Text is a list of code points; its length and its positions count code points. -/
abbrev Text := List CodePoint

namespace CodePoint

/-- Two code points are equal when their numbers are. -/
@[ext] theorem ext {a b : CodePoint} (h : a.val = b.val) : a = b := by
  cases a; cases b; cases h; rfl

def ofChar (c : Char) : CodePoint where
  val := c.toNat
  lt := by
    have h : c.toNat.isValidChar := c.valid
    simp only [Nat.isValidChar] at h
    omega

instance : Coe Char CodePoint := ⟨ofChar⟩

instance : Inhabited CodePoint := ⟨ofChar 'A'⟩

/-- The code point with the number `n`, or the replacement character where there is none. -/
def ofNat (n : Nat) : CodePoint :=
  if h : n < 0x110000 then ⟨n, h⟩ else ⟨0xFFFD, by decide⟩

theorem val_ofNat {n : Nat} (h : n < 0x110000) : (ofNat n).val = n := by
  simp [ofNat, h]

def isDigit (c : CodePoint) : Bool := decide (48 ≤ c.val) && decide (c.val ≤ 57)

def isUpper (c : CodePoint) : Bool := decide (65 ≤ c.val) && decide (c.val ≤ 90)

def isLower (c : CodePoint) : Bool := decide (97 ≤ c.val) && decide (c.val ≤ 122)

/-- An ASCII letter or the underscore: what an identifier may start with. -/
def isIdentifierStart (c : CodePoint) : Bool := c.isUpper || c.isLower || decide (c.val = 95)

/-- An ASCII letter, a digit or the underscore: what an identifier is made of. -/
def isIdentifierPart (c : CodePoint) : Bool := c.isIdentifierStart || c.isDigit

/-- A hexadecimal digit in either case. -/
def isHexDigit (c : CodePoint) : Bool :=
  c.isDigit || (decide (97 ≤ c.val) && decide (c.val ≤ 102)) ||
    (decide (65 ≤ c.val) && decide (c.val ≤ 70))

def digitValue (c : CodePoint) : Nat :=
  if c.val ≤ 57 then c.val - 48 else if c.val ≤ 70 then c.val - 55 else c.val - 87

/-- A first half of a pair that spells a code point beyond `0xFFFF` in 16-bit units. -/
def isHighSurrogate (c : CodePoint) : Bool := decide (0xD800 ≤ c.val) && decide (c.val ≤ 0xDBFF)

/-- A second half of such a pair. -/
def isLowSurrogate (c : CodePoint) : Bool := decide (0xDC00 ≤ c.val) && decide (c.val ≤ 0xDFFF)

/-- A half of such a pair: it has no UTF-8 form of its own. -/
def isSurrogate (c : CodePoint) : Bool := decide (0xD800 ≤ c.val) && decide (c.val ≤ 0xDFFF)

def ofSurrogates (high low : CodePoint) : CodePoint :=
  ofNat (0x10000 + (high.val - 0xD800) * 0x400 + (low.val - 0xDC00))

/-- The white space that may surround a name or a type: the separators of Unicode and the ASCII
controls from tab to carriage return and from file separator to unit separator. -/
def isBlank (c : CodePoint) : Bool :=
  (decide (9 ≤ c.val) && decide (c.val ≤ 13)) || (decide (28 ≤ c.val) && decide (c.val ≤ 32)) ||
    c.val == 0x85 || c.val == 0xA0 || c.val == 0x1680 ||
    (decide (0x2000 ≤ c.val) && decide (c.val ≤ 0x200A)) || c.val == 0x2028 || c.val == 0x2029 ||
    c.val == 0x202F || c.val == 0x205F || c.val == 0x3000

/-- The lower-case hexadecimal digit of a number below sixteen. -/
def hexDigit (n : Nat) : CodePoint := ofNat (if n < 10 then 48 + n else 87 + n)

end CodePoint

end AbiBindings
