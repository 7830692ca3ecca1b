import AbiBindings.Text.CodePoint

/-!
Operations on text: literals, decimal numbers, trimming, joining, and the order by code point that
every sorted output follows. A string literal is read as text where text is expected.
-/

namespace AbiBindings.Text

def ofString (s : String) : Text := s.toList.map CodePoint.ofChar

instance : Coe String Text := ⟨ofString⟩

/-- A literal matches the list of its characters, so that nothing has to be decoded. -/
theorem ofString_eq {s : String} {chars : List Char} (h : s = String.ofList chars) :
    ofString s = chars.map CodePoint.ofChar := by
  rw [h, ofString, String.toList_ofList]

/-- What holds of the characters of a literal holds of the literal. -/
theorem literal (P : Text → Prop) {chars : List Char} (h : P (chars.map CodePoint.ofChar)) :
    P (ofString (String.ofList chars)) := by
  rwa [ofString_eq rfl]

theorem literal_append {chars s t : List Char} (h : chars = s ++ t) :
    ofString (String.ofList chars) = ofString (String.ofList s) ++ ofString (String.ofList t) := by
  simp [ofString, h]

/-- The string with these code points; a surrogate, which no string holds, becomes the
replacement character. -/
def toString (t : Text) : String :=
  String.ofList (t.map fun c => if c.isSurrogate then '\uFFFD' else Char.ofNat c.val)

/-- The decimal digits of a natural number, without leading zeros. -/
def ofNat (n : Nat) : Text := (Nat.toDigits 10 n).map CodePoint.ofChar

/-- The decimal digits of an integer after its sign, which is written only when negative. -/
def ofInt (i : Int) : Text :=
  if i < 0 then '-' :: ofNat i.natAbs else ofNat i.natAbs

def decimalValue (digits : Text) : Nat :=
  digits.foldl (fun n d => n * 10 + d.digitValue) 0

/-- The number that a run of hexadecimal digits spells. -/
def hexValue (digits : Text) : Nat :=
  digits.foldl (fun n d => n * 16 + d.digitValue) 0

/-- The last `width` hexadecimal digits of a number, the most significant first. -/
def ofHex : (width : Nat) → (n : Nat) → Text
  | 0, _ => []
  | width + 1, n => ofHex width (n / 16) ++ [CodePoint.hexDigit (n % 16)]

def trimEnd (t : Text) : Text := (t.reverse.dropWhile CodePoint.isBlank).reverse

/-- The text without the blanks at either end. -/
def trim (t : Text) : Text := trimEnd (t.dropWhile CodePoint.isBlank)

/-- The text without its blanks, wherever they stand. -/
def withoutBlanks (t : Text) : Text := t.filter fun c => !c.isBlank

def trimUnderscores (t : Text) : Text :=
  (((t.dropWhile (· == ('_' : CodePoint))).reverse).dropWhile (· == ('_' : CodePoint))).reverse

/-- The parts one after the other with `separator` between neighbours. -/
def join (separator : Text) : List Text → Text
  | [] => []
  | [part] => part
  | part :: next :: rest => part ++ separator ++ join separator (next :: rest)

/-- The stretches between the places where `separator` stands; at least one, maybe empty. -/
def splitOn (separator : CodePoint) : Text → List Text
  | [] => [[]]
  | c :: rest =>
    if c = separator then [] :: splitOn separator rest
    else
      match splitOn separator rest with
      | [] => [[c]]
      | part :: parts => (c :: part) :: parts

def dropLineEnd (t : Text) : Text :=
  if t.getLast? == some (CodePoint.ofChar '\n') then t.dropLast else t

def startsWith (t start : Text) : Bool := start.isPrefixOf t

/-- The order by code point, a proper beginning before the longer text. -/
def le : Text → Text → Bool
  | [], _ => true
  | _ :: _, [] => false
  | a :: s, b :: t => decide (a.val < b.val) || (decide (a.val = b.val) && le s t)

/-- Puts an entry before the first one whose key is not smaller. -/
def insertByKey {α : Type} (key : α → Text) (x : α) : List α → List α
  | [] => [x]
  | y :: rest => if le (key x) (key y) then x :: y :: rest else y :: insertByKey key x rest

def sortByKey {α : Type} (key : α → Text) (entries : List α) : List α :=
  entries.foldr (insertByKey key) []

def sortDistinct (texts : List Text) : List Text := sortByKey id texts.eraseDups

def spaces (count : Nat) : Text := List.replicate count ' '

end AbiBindings.Text
