import AbiBindings.Decimal.Binary64
import AbiBindings.Text.Basic

/-!
The shortest decimal of a floating-point number: the fewest digits that still round to it, and
among those the nearest. The search tries the two neighbours of the number on ever finer decimal
grids and compares them, in exact arithmetic, with the ends of the interval that rounds to the
number. How the digits are laid out is one record, `Layout.plain`.
-/

namespace AbiBindings

structure Decimal where
  digits : Nat
  exponent : Int
deriving DecidableEq, Repr

namespace Decimal

open Binary64 (timesPower)

def compareBinary (d : Decimal) (n : Nat) (power : Int) : Ordering :=
  compare (timesPower 2 (timesPower 10 d.digits d.exponent) (-power))
    (timesPower 10 (timesPower 2 n power) (-d.exponent))

/-- Whether the decimal rounds to `significand * 2 ^ exponent`: it lies between the halfway points
to the neighbours, ends included when the significand is even. Below a power of two the lower
neighbour is half as far away. -/
def roundsTo (d : Decimal) (significand : Nat) (exponent : Int) : Bool :=
  let narrow := significand == Nat.pow 2 52 && decide (-1074 < exponent)
  let low := if narrow then 4 * significand - 1 else 4 * significand - 2
  let fromLow := d.compareBinary low (exponent - 2)
  let toHigh := d.compareBinary (4 * significand + 2) (exponent - 2)
  let closed := significand % 2 == 0
  (fromLow == .gt || (closed && fromLow == .eq)) && (toHigh == .lt || (closed && toHigh == .eq))

/-- The greatest point of the grid of multiples of `10 ^ scale` that is not above the number. -/
def floorOn (significand : Nat) (exponent scale : Int) : Decimal where
  digits := timesPower 10 (timesPower 2 significand exponent) (-scale) /
    timesPower 10 (timesPower 2 1 (-exponent)) scale
  exponent := scale

/-- Of the two grid points around the number, the nearer one that rounds to it; a tie goes to the
even digit. -/
def nearestOn? (significand : Nat) (exponent scale : Int) : Option Decimal :=
  let below := floorOn significand exponent scale
  let above : Decimal := ⟨below.digits + 1, scale⟩
  let middle : Decimal := ⟨2 * below.digits + 1, scale⟩
  let belowFits := below.roundsTo significand exponent
  let aboveFits := above.roundsTo significand exponent
  let belowNearer : Bool :=
    match middle.compareBinary significand (exponent + 1) with
    | .gt => true
    | .lt => false
    | .eq => below.digits % 2 == 0
  if belowFits && aboveFits then some (bif belowNearer then below else above)
  else if belowFits then some below
  else if aboveFits then some above
  else none

/-- The least `k` with `significand * 2 ^ exponent < 10 ^ k`, which lies within a few steps of the
estimate from the binary logarithm. -/
def scaleOf (significand : Nat) (exponent : Int) : Int :=
  let bits : Int := exponent + significand.log2
  let guess : Int := bits * 30103 / 100000 - 1
  let candidates := (List.range 5).map fun (i : Nat) => guess + (i : Int)
  (candidates.find? fun k => (Decimal.mk 1 k).compareBinary significand exponent == .gt).getD
    (guess + 5)

/-- The shortest decimal of a positive finite number, with its last digit at `exponent`; seventeen
digits always suffice. -/
def shortest (significand : Nat) (exponent : Int) : Decimal :=
  let scale := scaleOf significand exponent
  let grids := (List.range 17).map fun (i : Nat) => scale - 1 - (i : Int)
  (grids.findSome? (nearestOn? significand exponent)).getD
    (floorOn significand exponent (scale - 17))

end Decimal

structure Layout where
  /-- Powers of ten of the leading digit from here on are written out in place. -/
  plainFrom : Int
  /-- Powers of ten of the leading digit from here on have an exponent. -/
  plainBelow : Int
  /-- The least number of digits of an exponent. -/
  exponentWidth : Nat

namespace Layout

/-- In place from `0.0001` up to below `10 ^ 16`, and otherwise with a signed exponent of two
digits or more. -/
def plain : Layout := ⟨-4, 16, 2⟩

def zeros (count : Nat) : Text := List.replicate count '0'

def padZeros (width : Nat) (t : Text) : Text := zeros (width - t.length) ++ t

/-- The digits and the power of ten of the leading one as text. A whole number keeps `.0`. -/
def write (layout : Layout) (digits : Text) (power : Int) : Text :=
  if layout.plainFrom ≤ power ∧ power < layout.plainBelow then
    if power < 0 then "0." ++ zeros (-power - 1).toNat ++ digits
    else if digits.length ≤ power.toNat + 1 then
      digits ++ zeros (power.toNat + 1 - digits.length) ++ ".0"
    else digits.take (power.toNat + 1) ++ "." ++ digits.drop (power.toNat + 1)
  else
    let fraction : Text := if digits.length = 1 then [] else "." ++ digits.drop 1
    let sign : Text := if power < 0 then "-" else "+"
    digits.take 1 ++ fraction ++ "e" ++ sign ++
      padZeros layout.exponentWidth (Text.ofNat power.natAbs)

end Layout

namespace Binary64

/-- The number as text: its shortest digits in the plain layout, zeros with their sign. -/
def toText : Binary64 → Text
  | nan => "nan"
  | infinite negative => if negative then "-inf" else "inf"
  | finite negative significand exponent =>
    let sign : Text := if negative then "-" else []
    if significand = 0 then sign ++ "0.0"
    else
      let d := Decimal.shortest significand exponent
      let digits := Text.ofNat d.digits
      let power : Int := d.exponent + digits.length - 1
      let significant := (digits.reverse.dropWhile (· == ('0' : CodePoint))).reverse
      sign ++ Layout.plain.write significant power

end Binary64

end AbiBindings
