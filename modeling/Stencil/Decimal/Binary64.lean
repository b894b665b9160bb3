/-!
# Binary numbers of 64 bits

The numbers of a template are binary numbers with a significand of 53 bits and a bounded exponent.
They are only read and written, so they are kept as the integers that make them up.

## Main definitions

* `Binary64`: a finite number or an infinity
* `Binary64.ofRatio`: the number nearest to a quotient, of two equally near ones that with an even
  significand
* `Binary64.integer?`: the integer that a number is
-/

namespace Stencil

/-- A finite number `± significand * 2 ^ exponent`, or an infinity. In the numbers built here the
significand is below `2 ^ 53`, and it reaches `2 ^ 52` unless the exponent is the least one. -/
inductive Binary64 where
  | finite (negative : Bool) (significand : Nat) (exponent : Int)
  | infinite (negative : Bool)
  deriving DecidableEq, Repr, Inhabited

namespace Binary64

/-- The exponent of the smallest numbers. -/
def minExponent : Int := -1074

/-- The exponent of the largest numbers. -/
def maxExponent : Int := 971

/-- Zero, with its sign. -/
def zero (negative : Bool) : Binary64 := .finite negative 0 minExponent

/-- The quotient rounded to the nearest integer, a half to the even one. -/
def roundQuotient (num den : Nat) : Nat :=
  let quotient := num / den
  let twice := 2 * (num % den)
  if twice < den then quotient
  else if den < twice then quotient + 1
  else if quotient % 2 = 0 then quotient else quotient + 1

/-- Numerator and denominator of `num / den / 2 ^ exponent`. -/
def scale (num den : Nat) : Int → Nat × Nat
  | .ofNat n => (num, den * Nat.pow 2 n)
  | .negSucc n => (num * Nat.pow 2 (n + 1), den)

/-- The exponent at which `num / den` has a significand of 53 bits, or the least exponent. -/
def exponentOf (num den : Nat) : Int :=
  let low := max ((num.log2 : Int) - den.log2 - 53) minExponent
  let (n, d) := scale num den low
  if Nat.pow 2 53 ≤ n / d then low + 1 else low

/-- The number nearest to `± num / den`; `den` is positive. -/
def ofRatio (negative : Bool) (num den : Nat) : Binary64 :=
  if num = 0 then zero negative
  else
    let exponent := exponentOf num den
    let (n, d) := scale num den exponent
    let rounded := roundQuotient n d
    let (significand, exponent) :=
      if rounded = Nat.pow 2 53 then (Nat.pow 2 52, exponent + 1) else (rounded, exponent)
    if maxExponent < exponent then .infinite negative else .finite negative significand exponent

/-- The number nearest to the integer `n`. -/
def ofInt (n : Int) : Binary64 :=
  ofRatio (n < 0) n.natAbs 1

/-- The integer that the number is, if it is one. -/
def integer? : Binary64 → Option Int
  | .infinite _ => none
  | .finite negative significand exponent =>
    let signed (n : Nat) : Int := if negative then -(n : Int) else n
    match exponent with
    | .ofNat e => some (signed (significand * Nat.pow 2 e))
    | .negSucc e =>
      if significand % Nat.pow 2 (e + 1) = 0 then some (signed (significand / Nat.pow 2 (e + 1)))
      else none

/-- Whether the number is zero, whatever its sign. -/
def isZero : Binary64 → Bool
  | .finite _ significand _ => significand = 0
  | .infinite _ => false

end Binary64

end Stencil
