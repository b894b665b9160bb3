import Stencil.Decimal.Shortest

/-!
# Written forms of numbers

A written form lays out the fewest digits that read back to a number, either in positional notation
or with a power of ten. A `NumberLayout` records the choices that the forms differ in.
-/

namespace Stencil

/-- The choices of a written form. -/
structure NumberLayout where
  /-- Which of two equally near digit strings is written. -/
  tie : Tie
  /-- The powers of ten of the leading digit that are written in positional notation, from the first
  up to but not including the second; `none` for all. -/
  positional : Option (Int × Int)
  /-- Whether an integral value in positional notation ends in `.0`. -/
  fraction : Bool
  /-- Whether a positive power of ten has a plus sign. -/
  plus : Bool

namespace NumberLayout

/-- Digits `ds` in positional notation, the first one standing for `10 ^ power`. -/
def writePositional (layout : NumberLayout) (ds : List Char) (power : Int) : List Char :=
  match power with
  | .ofNat p =>
    if ds.length ≤ p + 1 then
      ds ++ List.replicate (p + 1 - ds.length) '0' ++ if layout.fraction then ['.', '0'] else []
    else ds.take (p + 1) ++ '.' :: ds.drop (p + 1)
  | .negSucc p => '0' :: '.' :: (List.replicate p '0' ++ ds)

/-- Digits `ds` with a power of ten. -/
def writePower (layout : NumberLayout) (ds : List Char) (power : Int) : List Char :=
  let point := if ds.length ≤ 1 then ds else ds.take 1 ++ '.' :: ds.drop 1
  let plus := if layout.plus && decide (0 ≤ power) then ['+'] else []
  point ++ 'e' :: plus ++ (toString power).toList

/-- Drops the zeros at the end of digits. -/
def dropTrailingZeros (ds : List Char) : List Char :=
  (ds.reverse.dropWhile (· = '0')).reverse

/-- A finite number without its sign. -/
def writeFinite (layout : NumberLayout) (significand : Nat) (exponent : Int) : List Char :=
  let (ds, power) :=
    if significand = 0 then (['0'], 0)
    else
      let s := Binary64.shortest layout.tie significand exponent
      let ds := Nat.toDigits 10 s.digits
      (dropTrailingZeros ds, s.exponent + ds.length - 1)
  let positional := match layout.positional with
    | none => true
    | some (low, high) => decide (low ≤ power) && decide (power < high)
  if positional then layout.writePositional ds power else layout.writePower ds power

/-- The written form of a number. -/
def write (layout : NumberLayout) : Binary64 → String
  | .infinite negative => if negative then "-inf" else "inf"
  | .finite negative significand exponent =>
    let digits := String.ofList (layout.writeFinite significand exponent)
    if negative then "-" ++ digits else digits

end NumberLayout

/-- Numbers in messages and listings: always positional, without a fraction when integral. -/
def NumberLayout.plain : NumberLayout := ⟨.up, none, false, false⟩

/-- Numbers in outlines: positional from `0.0001` up to below `1e16`. -/
def NumberLayout.outline : NumberLayout := ⟨.up, some (-4, 16), true, false⟩

/-- Numbers in JSON: positional from `0.00001` up to below `1e+16`. -/
def NumberLayout.json : NumberLayout := ⟨.toEven, some (-5, 16), true, true⟩

end Stencil
