import Mathlib.Algebra.Order.Ring.Nat
import Mathlib.Data.List.TakeWhile
import Stencil.Expression.Term

/-!
# Numerals of integers

A number that is an integer of at most fifteen digits is written in digits, and the digits are read
back as that number: below `2 ^ 53` each integer is a number of its own, so nothing is rounded. The
sign of a zero is not written.

## Main definitions

* `Binary64.Canonical`: a number as it is kept, with as many bits in the significand as it can have
* `Binary64.withoutZeroSign`: a zero without its sign, another number as it is

## Main results

* `Binary64.ofRatio_natural`: the number of an integer
* `Binary64.withoutZeroSign_eq`: a number that is an integer is the number of the integer
* `Term.exists_parse?_writeNumber`: a numeral is read back as its number
-/

namespace Stencil

variable {n : Nat}

namespace Binary64

/-- A number as it is kept: the significand has 53 bits, or the exponent is the least one. -/
def Canonical : Binary64 → Prop
  | .finite _ significand exponent =>
    significand < Nat.pow 2 53 ∧ (Nat.pow 2 52 ≤ significand ∨ exponent = minExponent)
  | .infinite _ => True

/-- A zero without its sign, another number as it is. -/
def withoutZeroSign (value : Binary64) : Binary64 :=
  if value.isZero then .zero false else value

/-! ### The number of an integer -/

theorem log2_mul_two_pow (hn : n ≠ 0) (k : Nat) : (n * 2 ^ k).log2 = n.log2 + k := by
  induction k with
  | zero => simp
  | succ k ih =>
    have hpos : n * 2 ^ k ≠ 0 := Nat.mul_ne_zero hn (Nat.two_pow_pos k).ne'
    rw [pow_succ', Nat.mul_left_comm, Nat.log2_two_mul hpos, ih, Nat.add_assoc]

theorem roundQuotient_one (n : Nat) : roundQuotient n 1 = n := by
  simp [roundQuotient, Nat.mod_one]

theorem exponentOf_natural (hn : n ≠ 0) (hlt : n < 2 ^ 53) :
    exponentOf n 1 = (n.log2 : Int) - 52 := by
  have hlog : n.log2 < 53 := (Nat.log2_lt hn).2 hlt
  -- One bit too many stands before the point, so the exponent is one more than the first guess.
  have hlow : max ((n.log2 : Int) - (1 : Nat).log2 - 53) minExponent = .negSucc (52 - n.log2) := by
    rw [minExponent, show (1 : Nat).log2 = 0 from rfl]
    omega
  have hbits : Nat.pow 2 53 ≤ n * Nat.pow 2 (52 - n.log2 + 1) := by
    have hsplit : 2 ^ 53 = 2 ^ n.log2 * 2 ^ (52 - n.log2 + 1) := by
      rw [← pow_add]
      congr 1
      omega
    exact hsplit.le.trans (Nat.mul_le_mul_right _ (Nat.log2_self_le hn))
  simp only [exponentOf, hlow, scale, Nat.div_one, if_pos hbits]
  omega

/-- An integer below `2 ^ 53` is a number, with the bits of the integer at the top of the
significand. -/
theorem ofRatio_natural (hn : n ≠ 0) (hlt : n < 2 ^ 53) :
    ofRatio false n 1 = .finite false (n * 2 ^ (52 - n.log2)) ((n.log2 : Int) - 52) := by
  have hlog : n.log2 < 53 := (Nat.log2_lt hn).2 hlt
  have hscale : scale n 1 ((n.log2 : Int) - 52) = (n * 2 ^ (52 - n.log2), 1) := by
    rcases Nat.lt_or_ge n.log2 52 with h | h
    · rw [show (n.log2 : Int) - 52 = .negSucc (51 - n.log2) by omega, scale,
        show 52 - n.log2 = 51 - n.log2 + 1 by omega]
      rfl
    · have hzero : (n.log2 : Int) - 52 = .ofNat 0 := by
        simp only [Int.ofNat_eq_natCast]
        omega
      rw [hzero, show 52 - n.log2 = 0 by omega]
      simp [scale]
  have hne : n * 2 ^ (52 - n.log2) ≠ Nat.pow 2 53 := by
    intro h
    have hlog2 := log2_mul_two_pow hn (52 - n.log2)
    rw [h, show Nat.pow 2 53 = 2 ^ 53 from rfl, Nat.log2_two_pow] at hlog2
    omega
  have hexponent : ¬ maxExponent < (n.log2 : Int) - 52 := by
    rw [maxExponent]
    omega
  simp only [ofRatio, if_neg hn, exponentOf_natural hn hlt, hscale, roundQuotient_one, if_neg hne,
    if_neg hexponent]

/-! ### Numbers that are integers -/

theorem eq_of_signed_eq {negative : Bool} {m : Nat} (hm : m ≠ 0)
    (h : (if negative then -(m : Int) else m) = n) : negative = false ∧ m = n := by
  cases negative with
  | true =>
    simp only [if_true] at h
    omega
  | false => exact ⟨rfl, Int.ofNat.inj h⟩

/-- How an integer other than zero comes from significand and exponent. -/
theorem eq_of_integer? {negative : Bool} {significand : Nat} {exponent : Int}
    (hne : significand ≠ 0) (h : (finite negative significand exponent).integer? = some (n : Int)) :
    negative = false ∧
      ((∃ k, exponent = .ofNat k ∧ significand * 2 ^ k = n) ∨
        ∃ k, exponent = .negSucc k ∧ significand = n * 2 ^ (k + 1)) := by
  cases exponent with
  | ofNat k =>
    have hpos : significand * Nat.pow 2 k ≠ 0 := Nat.mul_ne_zero hne (Nat.two_pow_pos k).ne'
    obtain ⟨hsign, heq⟩ := eq_of_signed_eq hpos (Option.some.inj h)
    exact ⟨hsign, .inl ⟨k, rfl, heq⟩⟩
  | negSucc k =>
    simp only [integer?] at h
    split at h
    · next hdvd =>
      have hmul := Nat.div_mul_cancel (Nat.dvd_of_mod_eq_zero hdvd)
      have hpos : significand / Nat.pow 2 (k + 1) ≠ 0 := by
        intro hquotient
        rw [hquotient, Nat.zero_mul] at hmul
        exact hne hmul.symm
      obtain ⟨hsign, heq⟩ := eq_of_signed_eq hpos (Option.some.inj h)
      exact ⟨hsign, .inr ⟨k, rfl, by rw [← heq]; exact hmul.symm⟩⟩
    · cases h

/-- A number that is an integer below `2 ^ 53` and not negative is the number of the integer, but for
the sign of zero. -/
theorem withoutZeroSign_eq {value : Binary64} (hvalue : value.Canonical)
    (hinteger : value.integer? = some (n : Int)) (hlt : n < 2 ^ 53) :
    value.withoutZeroSign = ofRatio false n 1 := by
  cases value with
  | infinite negative => cases hinteger
  | finite negative significand exponent =>
    obtain ⟨hbits, hfull⟩ := hvalue
    by_cases hzero : significand = 0
    · subst hzero
      obtain rfl : n = 0 := by
        cases exponent <;> cases negative <;> simpa [integer?, eq_comm] using hinteger
      rfl
    · have hne : n ≠ 0 := by
        rintro rfl
        obtain ⟨-, ⟨k, -, hn⟩ | ⟨k, -, hsignificand⟩⟩ := eq_of_integer? hzero hinteger
        · exact Nat.mul_ne_zero hzero (Nat.two_pow_pos k).ne' hn
        · exact hzero (by simpa using hsignificand)
      obtain ⟨rfl, hparts⟩ := eq_of_integer? hzero hinteger
      rw [withoutZeroSign, isZero, decide_eq_false hzero, ofRatio_natural hne hlt]
      rcases hparts with ⟨k, rfl, rfl⟩ | ⟨k, rfl, rfl⟩
      · -- With a further factor of two the integer would be too large.
        have hhigh : 2 ^ 52 ≤ significand := hfull.resolve_right (by simp [minExponent])
        obtain rfl : k = 0 := by
          by_contra hk
          have hpow : 2 ^ 1 ≤ 2 ^ k := Nat.pow_le_pow_right (by omega) (by omega)
          have hmul := Nat.mul_le_mul hhigh hpow
          omega
        have hlog : significand.log2 = 52 := (Nat.log2_eq_iff hzero).2 ⟨hhigh, hbits⟩
        simp [hlog]
      · have hhigh : 2 ^ 52 ≤ n * 2 ^ (k + 1) := by
          refine hfull.resolve_right fun hmin => ?_
          have hk : k = 1073 := by
            rw [minExponent] at hmin
            omega
          have hpow : 2 ^ 53 ≤ 2 ^ (k + 1) := Nat.pow_le_pow_right (by omega) (by omega)
          have hmul := Nat.mul_le_mul (Nat.one_le_iff_ne_zero.2 hne) hpow
          have hbits' : n * 2 ^ (k + 1) < 2 ^ 53 := hbits
          omega
        have hlog : (n * 2 ^ (k + 1)).log2 = 52 := (Nat.log2_eq_iff hzero).2 ⟨hhigh, hbits⟩
        rw [log2_mul_two_pow hne] at hlog
        have hexponent : Int.negSucc k = (n.log2 : Int) - 52 := by omega
        rw [hexponent, show 52 - n.log2 = k + 1 by omega]
        rfl

end Binary64

namespace Scientific

theorem parse?_digits {ds : List Char} (hne : ds ≠ []) (hds : ∀ c ∈ ds, c.isDigit = true) :
    parse? ds = some ⟨decimalValue ds, 0⟩ := by
  have hall : ds.all Char.isDigit = true := List.all_eq_true.2 hds
  have htake : ds.takeWhile Char.isDigit = ds := List.takeWhile_eq_self_iff.2 hds
  have hdrop : ds.dropWhile Char.isDigit = [] := List.dropWhile_eq_nil_iff.2 hds
  simp [parse?, htake, hdrop, hne, parseExponent?]

/-- The digits of an integer are read back. -/
theorem parse?_toDigits (n : Nat) : parse? (Nat.toDigits 10 n) = some ⟨n, 0⟩ := by
  have hvalue : decimalValue (Nat.toDigits 10 n) = n := Nat.ofDigitChars_ten_toDigits
  rw [parse?_digits Nat.toDigits_ne_nil fun c hc =>
    Nat.isDigit_of_mem_toDigits (by omega) (by omega) hc, hvalue]

theorem toBinary64_natural (n : Nat) :
    toBinary64 false ⟨n, 0⟩ = Binary64.ofRatio false n 1 := by
  by_cases hn : n = 0
  · subst hn
    rfl
  · have hsmall : ¬ (0 : Int) + n.log2 + 1 < -330 := by omega
    have hlarge : ¬ (400 : Int) < 0 := by decide
    rw [toBinary64, if_neg hn, if_neg hlarge, if_neg hsmall]
    exact congrArg (Binary64.ofRatio false · 1) (Nat.mul_one n)

end Scientific

/-- An integer of at most fifteen digits is written in digits. -/
theorem Term.writeNumber_of_integer? {value : Binary64}
    (hinteger : value.integer? = some (n : Int)) (hlt : n < Nat.pow 10 15) :
    (writeNumber value).toList = Nat.toDigits 10 n := by
  rw [writeNumber, hinteger]
  simp only [Int.natAbs_natCast, if_pos hlt]
  exact Nat.toList_repr

/-- The numeral of an integer is read back as its number, but for the sign of zero. -/
theorem Term.exists_parse?_writeNumber {value : Binary64} (hvalue : value.Canonical)
    (hinteger : value.integer? = some (n : Int)) (hlt : n < Nat.pow 10 15) :
    ∃ read, Scientific.parse? (writeNumber value).toList = some read ∧
      read.toBinary64 false = value.withoutZeroSign := by
  refine ⟨⟨n, 0⟩, ?_, ?_⟩
  · rw [writeNumber_of_integer? hinteger hlt, Scientific.parse?_toDigits]
  · have hexact : n < 2 ^ 53 := hlt.trans (by decide)
    rw [Scientific.toBinary64_natural, Binary64.withoutZeroSign_eq hvalue hinteger hexact]

end Stencil
