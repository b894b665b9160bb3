import Stencil.Decimal.Scientific

/-!
# The fewest decimal digits

Among the decimal numbers that round to a given binary number, `Binary64.shortest` chooses one with
the fewest digits and, of those, the nearest. Everything is exact integer arithmetic.
-/

namespace Stencil

/-- What to take when two decimal numbers are equally near. -/
inductive Tie where
  | toEven
  | up
  deriving DecidableEq, Repr

namespace Binary64

/-- The reals that round to a positive number: the number and the two ends of the interval, each as
a numerator over `den`. The ends belong to it when the significand is even. -/
structure Interval where
  low : Nat
  value : Nat
  high : Nat
  den : Nat
  closed : Bool

/-- The interval of `significand * 2 ^ exponent`. Below a power of two the neighbour is only half as
far. -/
def interval (significand : Nat) (exponent : Int) : Interval :=
  let below := if significand = Nat.pow 2 52 ∧ minExponent < exponent then 1 else 2
  let (factor, den) := match exponent - 2 with
    | .ofNat e => (Nat.pow 2 e, 1)
    | .negSucc e => (1, Nat.pow 2 (e + 1))
  { low := (4 * significand - below) * factor
    value := 4 * significand * factor
    high := (4 * significand + 2) * factor
    den
    closed := significand % 2 = 0 }

/-- The number of zeros between the point and the first digit of `num / den < 1`, at most `limit`. -/
def leadingZeros : Nat → Nat → Nat → Nat
  | 0, _, _ => 0
  | limit + 1, num, den => if den ≤ 10 * num then 0 else leadingZeros limit (10 * num) den + 1

/-- The power of ten just above `num / den`. -/
def magnitude (num den : Nat) : Int :=
  if den ≤ num then ((Nat.toDigits 10 (num / den)).length : Int)
  else -(leadingZeros 400 num den : Int)

/-- Whether `n * unit` lies in the interval with the ends `low` and `high`. -/
def Interval.holds (closed : Bool) (low high unit n : Nat) : Bool :=
  if closed then low ≤ n * unit && n * unit ≤ high else low < n * unit && n * unit < high

/-- The multiple of `10 ^ power` in the interval that is nearest to its value, if there is one. -/
def Interval.multiple? (i : Interval) (tie : Tie) (power : Int) : Option Nat :=
  let (factor, unit) := match power with
    | .ofNat e => (1, i.den * Nat.pow 10 e)
    | .negSucc e => (Nat.pow 10 (e + 1), i.den)
  let value := i.value * factor
  let holds := holds i.closed (i.low * factor) (i.high * factor) unit
  let n := value / unit
  match holds n, holds (n + 1) with
  | false, false => none
  | true, false => some n
  | false, true => some (n + 1)
  | true, true =>
    let middle := (2 * n + 1) * unit
    if 2 * value < middle then some n
    else if middle < 2 * value then some (n + 1)
    else match tie with
      | .up => some (n + 1)
      | .toEven => some (if n % 2 = 0 then n else n + 1)

/-- The first of the grids `10 ^ (top - 1)`, `10 ^ (top - 2)`, … that has a point in the interval. -/
def Interval.search (i : Interval) (tie : Tie) (top : Int) : Nat → Scientific
  | 0 => ⟨0, 0⟩
  | grids + 1 =>
    match i.multiple? tie (top - 1) with
    | some n => ⟨n, top - 1⟩
    | none => i.search tie (top - 1) grids

/-- The fewest digits that read back to the positive number `significand * 2 ^ exponent`. -/
def shortest (tie : Tie) (significand : Nat) (exponent : Int) : Scientific :=
  let i := interval significand exponent
  i.search tie (magnitude i.value i.den) 17

end Binary64

end Stencil
