/-!
Binary floating point with 53 significant bits, held exactly: a finite number is a significand
times a power of two, so reading a decimal is one rounding of a quotient of naturals and nothing
here depends on machine arithmetic. `Binary64.ofDecimal` rounds to the nearest number, a half to
the even significand, and overflows to infinity.
-/

namespace AbiBindings

/-- A number of the format: a finite one is `significand * 2 ^ exponent` after its sign, with the
significand below `2 ^ 53` and the exponent from `-1074` to `971`. -/
inductive Binary64 where
  | nan
  | infinite (negative : Bool)
  | finite (negative : Bool) (significand : Nat) (exponent : Int)
deriving DecidableEq, Repr

namespace Binary64

def isZero : Binary64 → Bool
  | finite _ significand _ => significand == 0
  | _ => false

/-- The quotient rounded to the nearest natural number, a half to the even one. -/
def roundQuotient (numerator denominator : Nat) : Nat :=
  let quotient := numerator / denominator
  let rest := 2 * (numerator % denominator)
  if rest < denominator then quotient
  else if denominator < rest then quotient + 1
  else quotient + quotient % 2

def timesPower (base n : Nat) (power : Int) : Nat := n * Nat.pow base power.toNat

/-- The number nearest to a positive quotient: the exponent is the least one for which the
significand has at most 53 bits. -/
def ofQuotient (negative : Bool) (numerator denominator : Nat) : Binary64 :=
  let magnitude : Int := (numerator.log2 : Int) - denominator.log2
  let least : Int := max (magnitude - 53) (-1074)
  let fits : Bool :=
    decide (timesPower 2 numerator (-least) < timesPower 2 (timesPower 2 denominator least) 53)
  let exponent : Int := if fits then least else least + 1
  let significand :=
    roundQuotient (timesPower 2 numerator (-exponent)) (timesPower 2 denominator exponent)
  let carried : Bool := significand == Nat.pow 2 53
  let significand := if carried then Nat.pow 2 52 else significand
  let exponent := if carried then exponent + 1 else exponent
  if 971 < exponent then infinite negative else finite negative significand exponent

/-- The number nearest to `digits * 10 ^ exponent`. Beyond `10 ^ 310` all is infinite and below
`10 ^ -330` all is zero, whatever the digits, so no larger power is ever formed. -/
def ofDecimal (negative : Bool) (digits : Nat) (exponent : Int) : Binary64 :=
  let scale : Int := exponent + (Nat.toDigits 10 digits).length
  if digits = 0 then finite negative 0 (-1074)
  else if 310 < scale then infinite negative
  else if scale < -330 then finite negative 0 (-1074)
  else ofQuotient negative (timesPower 10 digits exponent) (timesPower 10 1 (-exponent))

end Binary64

end AbiBindings
