import Stencil.Decimal.Binary64

/-!
# Decimal numbers as text

Decimal numbers are digits with an optional point and an optional power of ten. They are read
exactly and then rounded once.

## Main definitions

* `Scientific`: an exact decimal number `digits * 10 ^ exponent`
* `Scientific.parse?`: reading one
* `Scientific.toBinary64`: the nearest binary number
-/

namespace Stencil

/-- The decimal number `digits * 10 ^ exponent`. -/
structure Scientific where
  digits : Nat
  exponent : Int
  deriving DecidableEq, Repr

/-- The value of decimal digits, read from left to right. -/
def decimalValue (cs : List Char) : Nat :=
  cs.foldl (fun value c => 10 * value + (c.toNat - '0'.toNat)) 0

namespace Scientific

/-- The power of ten after the digits: nothing, or a mark `e` or `E`, a sign or none, and digits. -/
def parseExponent? : List Char → Option Int
  | [] => some 0
  | mark :: rest =>
    if mark = 'e' || mark = 'E' then
      let (negative, digits) := match rest with
        | '-' :: digits => (true, digits)
        | '+' :: digits => (false, digits)
        | digits => (false, digits)
      if digits.isEmpty || !digits.all Char.isDigit then none
      else some (if negative then -(decimalValue digits : Int) else decimalValue digits)
    else none

/-- Reads `12`, `12.`, `.5`, `1.5e-3` and the like; at least one digit stands before or after the
point. -/
def parse? (cs : List Char) : Option Scientific :=
  let whole := cs.takeWhile Char.isDigit
  let (fraction, rest) := match cs.dropWhile Char.isDigit with
    | '.' :: rest => (rest.takeWhile Char.isDigit, rest.dropWhile Char.isDigit)
    | rest => ([], rest)
  if whole.isEmpty && fraction.isEmpty then none
  else (parseExponent? rest).map fun exponent =>
    ⟨decimalValue (whole ++ fraction), exponent - fraction.length⟩

/-- The binary number nearest to a decimal one. Powers of ten far outside the range of the binary
numbers are not computed. -/
def toBinary64 (negative : Bool) (s : Scientific) : Binary64 :=
  if s.digits = 0 then .zero negative
  else if 400 < s.exponent then .infinite negative
  else if s.exponent + s.digits.log2 + 1 < -330 then .zero negative
  else match s.exponent with
    | .ofNat e => .ofRatio negative (s.digits * Nat.pow 10 e) 1
    | .negSucc e => .ofRatio negative s.digits (Nat.pow 10 (e + 1))

end Scientific

end Stencil
