import Mathlib.Algebra.Order.Field.Power
import Mathlib.Data.Rat.Cast.Order
import Mathlib.Tactic.FieldSimp
import Mathlib.Tactic.Linarith
import Mathlib.Tactic.NormNum
import Mathlib.Tactic.Positivity
import Mathlib.Tactic.Ring
import Stencil.Proofs.Numerals

/-!
# Rounding to the nearest number

Each finite number stands for the rationals that are nearest to it: from half way down to half way
up, with the ends if its significand is even. No rational belongs to two numbers, and the number
that is computed for a rational is the one that the rational belongs to.

## Main definitions

* `Binary64.IsKept`: significands and exponents as they are kept
* `Binary64.IsNumeral`: numbers that can be written in digits
* `Binary64.Rounds`: the rationals that belong to a number

## Main results

* `Binary64.Rounds.unique`: no rational belongs to two numbers
* `Binary64.exists_ofRatio`: the number of a quotient
* `Scientific.exists_toBinary64`: the number of a decimal number
-/

namespace Stencil

namespace Binary64

variable {den : Nat}

/-- A significand and an exponent as they are kept: with 53 bits, or with the least exponent. -/
structure IsKept (significand : Nat) (exponent : Int) : Prop where
  lt : significand < 2 ^ 53
  full : 2 ^ 52 ≤ significand ∨ exponent = minExponent
  min_le : minExponent ≤ exponent

/-- A number that can be written in digits: it is finite and has no sign. -/
def IsNumeral : Binary64 → Prop
  | .finite negative significand exponent =>
    negative = false ∧ IsKept significand exponent ∧ exponent ≤ maxExponent
  | .infinite _ => False

/-- How far the rationals of a number go down, in quarters of its last bit. Below a power of two the
next number is nearer. -/
def below (significand : Nat) (exponent : Int) : Nat :=
  if significand = Nat.pow 2 52 ∧ minExponent < exponent then 1 else 2

/-- The lower end of the rationals of a number. -/
def lower (significand : Nat) (exponent : Int) : ℚ :=
  (4 * significand - below significand exponent) * 2 ^ (exponent - 2)

/-- The upper end of the rationals of a number. -/
def upper (significand : Nat) (exponent : Int) : ℚ :=
  (4 * significand + 2) * 2 ^ (exponent - 2)

/-- The rational belongs to the number. The ends do if the significand is even. -/
structure Rounds (x : ℚ) (significand : Nat) (exponent : Int) : Prop where
  lower_le : lower significand exponent ≤ x
  le_upper : x ≤ upper significand exponent
  of_odd : significand % 2 = 1 → lower significand exponent < x ∧ x < upper significand exponent

theorem below_le_two (significand : Nat) (exponent : Int) : below significand exponent ≤ 2 := by
  unfold below
  split <;> omega

theorem two_zpow_pos (n : Int) : (0 : ℚ) < 2 ^ n := zpow_pos two_pos n

namespace Rounds

variable {x : ℚ} {m n : Nat} {d e : Int}

/-- With one exponent, significands that share a rational are at most one apart, and then only one
of them is even. -/
theorem le_of_same (h : Rounds x m e) (h' : Rounds x n e) : m ≤ n := by
  have hpos := two_zpow_pos (e - 2)
  have hbelow := below_le_two m e
  by_contra hlt
  have hle : (4 * m - below m e : ℚ) * 2 ^ (e - 2) ≤ (4 * n + 2) * 2 ^ (e - 2) :=
    h.lower_le.trans h'.le_upper
  have hends : (4 * m : ℚ) ≤ 4 * n + 2 + below m e := by
    linarith [le_of_mul_le_mul_right hle hpos]
  have hnat : 4 * m ≤ 4 * n + 2 + below m e := by exact_mod_cast hends
  -- The upper end of the smaller one is the lower end of the other one.
  have hm : m = n + 1 := by omega
  have htwo : below m e = 2 := by omega
  have heq : lower m e = upper n e := by
    rw [lower, upper, htwo, hm]
    push_cast
    ring
  rcases Nat.mod_two_eq_zero_or_one n with heven | hodd
  · have hstrict := (h.of_odd (by omega)).1
    rw [heq] at hstrict
    exact absurd (hstrict.trans_le h'.le_upper) (lt_irrefl _)
  · have hstrict := (h'.of_odd hodd).2
    rw [← heq] at hstrict
    exact absurd (hstrict.trans_le h.lower_le) (lt_irrefl _)

/-- A number with a smaller exponent lies below. -/
theorem not_lt (hm : IsKept m d) (hn : IsKept n e) (h : Rounds x m d) (h' : Rounds x n e) :
    ¬ d < e := by
  intro hlt
  have hpos := two_zpow_pos (d - 2)
  have hfull : 2 ^ 52 ≤ n := hn.full.resolve_right fun hmin => by
    have := hm.min_le
    omega
  have hbelow := below_le_two n e
  have hcoefficient : (0 : ℚ) ≤ 4 * n - below n e := by
    have : below n e ≤ 4 * n := by omega
    have : (below n e : ℚ) ≤ 4 * n := by exact_mod_cast this
    linarith
  have hstep : 2 * 2 ^ (d - 2) ≤ (2 : ℚ) ^ (e - 2) := by
    rw [← zpow_one_add₀ two_ne_zero]
    exact zpow_le_zpow_right₀ one_le_two (by omega)
  have hlow : (2 * (4 * n - below n e) : ℚ) * 2 ^ (d - 2) ≤ x := by
    calc (2 * (4 * n - below n e) : ℚ) * 2 ^ (d - 2)
        = (4 * n - below n e) * (2 * 2 ^ (d - 2)) := by ring
      _ ≤ lower n e := mul_le_mul_of_nonneg_left hstep hcoefficient
      _ ≤ x := h'.lower_le
  have hends : (8 * n : ℚ) ≤ 4 * m + 2 + 2 * below n e := by
    linarith [le_of_mul_le_mul_right (hlow.trans h.le_upper) hpos]
  have hnat : 8 * n ≤ 4 * m + 2 + 2 * below n e := by exact_mod_cast hends
  have hlast := hm.lt
  -- Only the power of two comes so far down, and the number below it is odd.
  have hn52 : n = 2 ^ 52 := by omega
  have hone : below n e = 1 := if_pos ⟨hn52, by have := hm.min_le; omega⟩
  have hm53 : m = 2 ^ 53 - 1 := by omega
  have hends : (2 * (4 * n - below n e) : ℚ) * 2 ^ (d - 2) = upper m d := by
    rw [upper, hone, hn52, hm53]
    norm_num
  have hstrict := (h.of_odd (by omega)).2
  rw [← hends] at hstrict
  exact absurd (hstrict.trans_le hlow) (lt_irrefl _)

/-- No rational belongs to two numbers. -/
theorem unique (hm : IsKept m d) (hn : IsKept n e) (h : Rounds x m d) (h' : Rounds x n e) :
    m = n ∧ d = e := by
  have hd : d = e :=
    le_antisymm (Int.not_lt.1 (not_lt hn hm h' h)) (Int.not_lt.1 (not_lt hm hn h h'))
  subst hd
  exact ⟨le_antisymm (h.le_of_same h') (h'.le_of_same h), rfl⟩

end Rounds

/-! ### The number of a quotient -/

theorem zpow_eq_four_mul (e : Int) : (2 : ℚ) ^ e = 4 * 2 ^ (e - 2) := by
  rw [zpow_sub₀ two_ne_zero]
  norm_num
  ring

theorem scale_pos (num : Nat) (hden : 0 < den) (e : Int) :
    0 < (scale num den e).2 := by
  cases e with
  | ofNat k => exact Nat.mul_pos hden (Nat.two_pow_pos k)
  | negSucc k => exact hden

/-- A quotient is the one that is rounded, in units of the exponent. -/
theorem div_eq_scale (num : Nat) (hden : 0 < den) (e : Int) :
    (num / den : ℚ) = (scale num den e).1 / (scale num den e).2 * 2 ^ e := by
  have hne : (den : ℚ) ≠ 0 := by positivity
  cases e with
  | ofNat k =>
    have hpow : ((den * Nat.pow 2 k : Nat) : ℚ) = den * 2 ^ k := by simp
    rw [scale, hpow, Int.ofNat_eq_natCast, zpow_natCast]
    field_simp
  | negSucc k =>
    have hpow : ((num * Nat.pow 2 (k + 1) : Nat) : ℚ) = num * 2 ^ (k + 1) := by simp
    rw [scale, hpow, zpow_negSucc]
    field_simp

/-- What an integer is up to a scaled quotient, it is up to the quotient. -/
theorem le_div_scale_iff {num k : Nat} (hden : 0 < den) (e : Int) :
    k ≤ (scale num den e).1 / (scale num den e).2 ↔ (k : ℚ) * 2 ^ e ≤ num / den := by
  have hpos := scale_pos num hden e
  have hcast : (0 : ℚ) < (scale num den e).2 := by exact_mod_cast hpos
  rw [Nat.le_div_iff_mul_le hpos, div_eq_scale num hden e, mul_le_mul_iff_left₀ (two_zpow_pos e),
    le_div_iff₀ hcast]
  norm_cast

/-- The exponent at which a rational has a significand of 53 bits, or the least one. -/
structure IsExponent (x : ℚ) (e : Int) : Prop where
  lt : x < 2 ^ 53 * 2 ^ e
  full : 2 ^ 52 * 2 ^ e ≤ x ∨ e = minExponent
  min_le : minExponent ≤ e

/-- The logarithms of numerator and denominator tell the one of the quotient up to one. -/
theorem zpow_lt_div {num : Nat} (hnum : num ≠ 0) (hden : 0 < den) :
    (2 : ℚ) ^ ((num.log2 : Int) - den.log2 - 1) < num / den ∧
      (num / den : ℚ) < 2 ^ ((num.log2 : Int) - den.log2 + 1) := by
  have hd : (0 : ℚ) < den := by exact_mod_cast hden
  have hnumLow : (2 : ℚ) ^ num.log2 ≤ num := by exact_mod_cast Nat.log2_self_le hnum
  have hnumHigh : (num : ℚ) < 2 ^ (num.log2 + 1) := by exact_mod_cast Nat.lt_log2_self
  have hdenLow : (2 : ℚ) ^ den.log2 ≤ den := by exact_mod_cast Nat.log2_self_le hden.ne'
  have hdenHigh : (den : ℚ) < 2 ^ (den.log2 + 1) := by exact_mod_cast Nat.lt_log2_self
  constructor
  · rw [lt_div_iff₀ hd]
    calc (2 : ℚ) ^ ((num.log2 : Int) - den.log2 - 1) * den
        < 2 ^ ((num.log2 : Int) - den.log2 - 1) * 2 ^ (den.log2 + 1) :=
          mul_lt_mul_of_pos_left hdenHigh (two_zpow_pos _)
      _ = 2 ^ num.log2 := by
          rw [← zpow_natCast, ← zpow_natCast, ← zpow_add₀ two_ne_zero]
          congr 1
          push_cast
          ring
      _ ≤ num := hnumLow
  · rw [div_lt_iff₀ hd]
    calc (num : ℚ) < 2 ^ (num.log2 + 1) := hnumHigh
      _ = 2 ^ ((num.log2 : Int) - den.log2 + 1) * 2 ^ den.log2 := by
          rw [← zpow_natCast, ← zpow_natCast, ← zpow_add₀ two_ne_zero]
          congr 1
          push_cast
          ring
      _ ≤ 2 ^ ((num.log2 : Int) - den.log2 + 1) * den :=
          mul_le_mul_of_nonneg_left hdenLow (two_zpow_pos _).le

theorem isExponent_exponentOf {num : Nat} (hnum : num ≠ 0) (hden : 0 < den) :
    IsExponent (num / den) (exponentOf num den) := by
  obtain ⟨hlow, hhigh⟩ := zpow_lt_div hnum hden
  -- The first guess is too low by one or right.
  generalize hguess : max ((num.log2 : Int) - den.log2 - 53) minExponent = guess
  have hmin : minExponent ≤ guess := by omega
  have hunfold : exponentOf num den =
      if Nat.pow 2 53 ≤ (scale num den guess).1 / (scale num den guess).2 then guess + 1
      else guess := by
    simp only [exponentOf, hguess]
  rw [hunfold]
  have hiff : Nat.pow 2 53 ≤ (scale num den guess).1 / (scale num den guess).2 ↔
      (2 : ℚ) ^ 53 * 2 ^ guess ≤ num / den := by
    rw [le_div_scale_iff hden guess]
    norm_num
  split
  · -- The logarithms allow one bit more, which the next exponent takes away.
    next h =>
    have hbits := hiff.1 h
    have hnext : (2 : ℚ) ^ (guess + 1) = 2 * 2 ^ guess := by
      rw [zpow_add₀ two_ne_zero, zpow_one, mul_comm]
    refine ⟨?_, .inl ?_, by omega⟩
    · refine hhigh.trans_le ?_
      rw [show (2 : ℚ) ^ 53 = 2 ^ (53 : Int) by norm_cast, ← zpow_add₀ two_ne_zero]
      exact zpow_le_zpow_right₀ one_le_two (by omega)
    · rw [hnext]
      linarith
  · next h =>
    refine ⟨not_le.1 fun hle => h (hiff.2 hle), ?_, hmin⟩
    by_cases hleast : guess = minExponent
    · exact .inr hleast
    · refine .inl (hlow.le.trans' ?_)
      rw [show (2 : ℚ) ^ 52 = 2 ^ (52 : Int) by norm_cast, ← zpow_add₀ two_ne_zero]
      exact zpow_le_zpow_right₀ one_le_two (by omega)

/-- A rounded quotient is at most a half away from the quotient, and less than that if it is odd. -/
theorem roundQuotient_bounds (num : Nat) (hden : 0 < den) :
    2 * (roundQuotient num den * den) ≤ 2 * num + den ∧
      2 * num ≤ 2 * (roundQuotient num den * den) + den ∧
      (roundQuotient num den % 2 = 1 → 2 * (roundQuotient num den * den) < 2 * num + den ∧
        2 * num < 2 * (roundQuotient num den * den) + den) := by
  have hsplit : num / den * den + num % den = num := by
    rw [Nat.mul_comm]
    exact Nat.div_add_mod num den
  have hrest := Nat.mod_lt num hden
  have hnext : (num / den + 1) * den = num / den * den + den := Nat.succ_mul _ _
  simp only [roundQuotient]
  split
  · exact ⟨by omega, by omega, fun _ => by omega⟩
  · split
    · rw [hnext]
      exact ⟨by omega, by omega, fun _ => by omega⟩
    · -- A half goes to the even neighbour, so an odd result is not a half away.
      split
      · exact ⟨by omega, by omega, fun _ => by omega⟩
      · rw [hnext]
        exact ⟨by omega, by omega, fun _ => by omega⟩

theorem div_le_roundQuotient (num den : Nat) :
    num / den ≤ roundQuotient num den ∧ roundQuotient num den ≤ num / den + 1 := by
  simp only [roundQuotient]
  split
  · omega
  · split
    · omega
    · split <;> omega

/-- The rounded quotient is at most half a unit away, and less than that if it is odd. -/
theorem roundQuotient_scale_bounds {num : Nat} (hden : 0 < den) {e : Int} {r : Nat}
    (hr : roundQuotient (scale num den e).1 (scale num den e).2 = r) :
    (4 * r - 2 : ℚ) * 2 ^ (e - 2) ≤ num / den ∧ (num / den : ℚ) ≤ (4 * r + 2) * 2 ^ (e - 2) ∧
      (r % 2 = 1 → (4 * r - 2 : ℚ) * 2 ^ (e - 2) < num / den ∧
        (num / den : ℚ) < (4 * r + 2) * 2 ^ (e - 2)) := by
  have hpos := scale_pos num hden e
  obtain ⟨hlow, hhigh, hodd⟩ := roundQuotient_bounds (scale num den e).1 hpos
  rw [hr] at hlow hhigh hodd
  rw [div_eq_scale num hden e, zpow_eq_four_mul e, ← mul_assoc]
  generalize (scale num den e).1 = n at *
  generalize (scale num den e).2 = d at *
  have hd : (0 : ℚ) < d := by exact_mod_cast hpos
  have hunit := two_zpow_pos (e - 2)
  -- In quarters of a unit, both sides are compared after multiplication by the denominator.
  rw [mul_le_mul_iff_left₀ hunit, mul_le_mul_iff_left₀ hunit, mul_lt_mul_iff_left₀ hunit,
    mul_lt_mul_iff_left₀ hunit, div_mul_eq_mul_div, le_div_iff₀ hd, div_le_iff₀ hd, lt_div_iff₀ hd,
    div_lt_iff₀ hd]
  refine ⟨?_, ?_, fun h => ⟨?_, ?_⟩⟩
  · have hcast : (2 * (r * d) : ℚ) ≤ 2 * n + d := by exact_mod_cast hlow
    linarith
  · have hcast : (2 * n : ℚ) ≤ 2 * (r * d) + d := by exact_mod_cast hhigh
    linarith
  · have hcast : (2 * (r * d) : ℚ) < 2 * n + d := by exact_mod_cast (hodd h).1
    linarith
  · have hcast : (2 * n : ℚ) < 2 * (r * d) + d := by exact_mod_cast (hodd h).2
    linarith

/-- A power of two is reached only from above, where it has the exponent of the rational. -/
theorem IsExponent.lower_le {x : ℚ} {r : Nat} {e : Int} (he : IsExponent x e)
    (hlow : (4 * r - 2 : ℚ) * 2 ^ (e - 2) ≤ x) : lower r e ≤ x := by
  rw [lower, below]
  split
  · next h =>
    have hfull := he.full.resolve_right h.2.ne'
    rw [zpow_eq_four_mul] at hfull
    have hpos := two_zpow_pos (e - 2)
    rw [h.1]
    push_cast
    norm_num at hfull ⊢
    linarith
  · exact_mod_cast hlow

theorem below_of_odd {r : Nat} {e : Int} (hodd : r % 2 = 1) : below r e = 2 := by
  refine if_neg fun h => ?_
  rw [h.1] at hodd
  exact absurd hodd (by decide)

/-- The smallest significand of the next exponent takes what is rounded up to one bit too many. -/
theorem rounds_next {x : ℚ} {e : Int} (hmin : minExponent ≤ e)
    (hlow : (4 * (2 ^ 53 : Nat) - 2 : ℚ) * 2 ^ (e - 2) ≤ x)
    (hhigh : x ≤ (4 * (2 ^ 53 : Nat) + 2) * 2 ^ (e - 2)) : Rounds x (2 ^ 52) (e + 1) := by
  have hbelow : below (2 ^ 52) (e + 1) = 1 := if_pos ⟨rfl, by omega⟩
  have hunit : (2 : ℚ) ^ (e + 1 - 2) = 2 * 2 ^ (e - 2) := by
    rw [← zpow_one_add₀ two_ne_zero]
    congr 1
    ring
  have hpos := two_zpow_pos (e - 2)
  refine ⟨?_, ?_, fun h => absurd h (by decide)⟩
  · rw [lower, hbelow, hunit]
    push_cast at hlow ⊢
    linarith
  · rw [upper, hunit]
    push_cast at hhigh ⊢
    linarith

/-- The number of a quotient is the one that the quotient belongs to; beyond the largest exponent it
is infinite. -/
theorem exists_ofRatio {num : Nat} (hnum : num ≠ 0) (hden : 0 < den) :
    ∃ significand exponent, IsKept significand exponent ∧
      Rounds (num / den) significand exponent ∧
      ofRatio false num den =
        if maxExponent < exponent then .infinite false else .finite false significand exponent := by
  have hexp := isExponent_exponentOf hnum hden
  generalize hexponent : exponentOf num den = e at hexp
  generalize hrounded : roundQuotient (scale num den e).1 (scale num den e).2 = r
  obtain ⟨hlow, hhigh, hodd⟩ := roundQuotient_scale_bounds hden hrounded
  obtain ⟨hfloor, hceil⟩ := div_le_roundQuotient (scale num den e).1 (scale num den e).2
  rw [hrounded] at hfloor hceil
  have hle : r ≤ 2 ^ 53 := by
    have hquotient : ¬ 2 ^ 53 ≤ (scale num den e).1 / (scale num den e).2 := by
      rw [le_div_scale_iff hden e]
      push_cast
      exact not_le.2 hexp.lt
    omega
  have hfull : 2 ^ 52 ≤ r ∨ e = minExponent := by
    refine hexp.full.imp_left fun h => hfloor.trans' ?_
    rw [le_div_scale_iff hden e]
    push_cast
    exact h
  simp only [ofRatio, if_neg hnum, hexponent, hrounded]
  by_cases htop : r = 2 ^ 53
  · rw [htop] at hlow hhigh
    refine ⟨2 ^ 52, e + 1, ⟨by decide, .inl le_rfl, ?_⟩, rounds_next hexp.min_le hlow hhigh, ?_⟩
    · have := hexp.min_le
      omega
    · rw [if_pos (show r = Nat.pow 2 53 from htop)]
      rfl
  · have hkept : IsKept r e := ⟨by omega, hfull, hexp.min_le⟩
    refine ⟨r, e, hkept, ⟨hexp.lower_le hlow, hhigh, fun h => ⟨?_, ?_⟩⟩, ?_⟩
    · rw [lower, below_of_odd h]
      exact_mod_cast (hodd h).1
    · exact (hodd h).2
    · rw [if_neg (show ¬ r = Nat.pow 2 53 from htop)]

end Binary64

/-! ### The number of a decimal number -/

namespace Scientific

/-- The value of a decimal number. -/
def value (s : Scientific) : ℚ := s.digits * 10 ^ s.exponent

open Binary64

theorem two_pow_le_ten_pow {m n : Nat} (h : Nat.pow 2 m ≤ Nat.pow 10 n) : (2 : ℚ) ^ m ≤ 10 ^ n := by
  exact_mod_cast h

/-- What is far below the smallest number belongs to zero. -/
theorem rounds_zero {x : ℚ} (hnonneg : 0 ≤ x) (hle : x ≤ 10 ^ (-331 : Int)) :
    Rounds x 0 minExponent := by
  have hpos := two_zpow_pos (minExponent - 2)
  refine ⟨?_, ?_, fun h => absurd h (by decide)⟩
  · have hbelow : below 0 minExponent = 2 := rfl
    rw [lower, hbelow]
    push_cast
    linarith
  · have hten : (2 : ℚ) ^ 1075 ≤ 10 ^ 331 := two_pow_le_ten_pow (by decide +kernel)
    have htwo : upper 0 minExponent = (2 ^ 1075)⁻¹ := by
      rw [upper, minExponent, Nat.cast_zero, ← zpow_natCast, ← zpow_neg,
        show (-1074 - 2 : Int) = -(1075 : Nat) - 1 by rfl, zpow_sub_one₀ two_ne_zero]
      ring
    rw [htwo]
    refine hle.trans ?_
    rw [show (-331 : Int) = -(331 : Nat) by rfl, zpow_neg, zpow_natCast]
    exact inv_anti₀ (by positivity) hten

/-- What is far above the largest number belongs to an exponent that is too large. -/
theorem maxExponent_lt {x : ℚ} {significand : Nat} {exponent : Int}
    (hkept : IsKept significand exponent) (hx : Rounds x significand exponent)
    (hlt : (10 : ℚ) ^ 400 < x) : maxExponent < exponent := by
  by_contra hle
  have hunit : (2 : ℚ) ^ (exponent - 2) ≤ 2 ^ 969 := by
    rw [← zpow_natCast]
    exact zpow_le_zpow_right₀ one_le_two (by rw [maxExponent] at hle; omega)
  have hsignificand : (4 * significand + 2 : ℚ) ≤ 2 ^ 55 := by
    have : 4 * significand + 2 ≤ 2 ^ 55 := by have := hkept.lt; omega
    exact_mod_cast this
  have hten : (2 : ℚ) ^ (55 + 969) ≤ 10 ^ 400 := two_pow_le_ten_pow (by decide +kernel)
  have hupper : upper significand exponent ≤ 2 ^ (55 + 969) := by
    rw [pow_add]
    exact mul_le_mul hsignificand hunit (two_zpow_pos _).le (by positivity)
  exact absurd (hx.le_upper.trans (hupper.trans hten)) (not_le.2 hlt)

theorem value_le_of_small {s : Scientific} (h : s.exponent + s.digits.log2 + 1 < -330) :
    s.value ≤ 10 ^ (-331 : Int) := by
  have hdigits : (s.digits : ℚ) ≤ 10 ^ (s.digits.log2 + 1) := by
    have htwo : s.digits ≤ 2 ^ (s.digits.log2 + 1) := Nat.lt_log2_self.le
    have hten : 2 ^ (s.digits.log2 + 1) ≤ 10 ^ (s.digits.log2 + 1) :=
      Nat.pow_le_pow_left (by decide) _
    exact_mod_cast htwo.trans hten
  have hten : (10 : ℚ) ≠ 0 := by norm_num
  calc s.value ≤ 10 ^ (s.digits.log2 + 1) * 10 ^ s.exponent :=
        mul_le_mul_of_nonneg_right hdigits (by positivity)
    _ = 10 ^ ((s.digits.log2 : Int) + 1 + s.exponent) := by
        rw [zpow_add₀ hten]
        norm_cast
    _ ≤ 10 ^ (-331 : Int) := zpow_le_zpow_right₀ (by norm_num) (by omega)

/-- The quotient of integers that a decimal number is. -/
theorem value_eq_div (s : Scientific) :
    s.value = match s.exponent with
      | .ofNat e => ((s.digits * Nat.pow 10 e : Nat) : ℚ) / (1 : Nat)
      | .negSucc e => (s.digits : ℚ) / (Nat.pow 10 (e + 1) : Nat) := by
  obtain ⟨digits, exponent⟩ := s
  cases exponent with
  | ofNat e => simp [value]
  | negSucc e => simp [value, zpow_negSucc, div_eq_mul_inv]

/-- Rounding happens once: the number of a decimal number is the one that its value belongs to, also
where powers of ten are not computed. -/
theorem exists_toBinary64 {s : Scientific} (hs : s.digits ≠ 0) :
    ∃ significand exponent, IsKept significand exponent ∧ Rounds s.value significand exponent ∧
      s.toBinary64 false =
        if maxExponent < exponent then .infinite false else .finite false significand exponent := by
  have hpow (e : Nat) : 0 < Nat.pow 10 e := Nat.pow_pos (by decide)
  -- The number that the value belongs to, without the shortcuts.
  have hexists : ∃ significand exponent, IsKept significand exponent ∧
      Rounds s.value significand exponent ∧
      (match s.exponent with
        | .ofNat e => ofRatio false (s.digits * Nat.pow 10 e) 1
        | .negSucc e => ofRatio false s.digits (Nat.pow 10 (e + 1))) =
        if maxExponent < exponent then .infinite false
        else .finite false significand exponent := by
    rw [value_eq_div]
    cases s.exponent with
    | ofNat e => exact exists_ofRatio (Nat.mul_ne_zero hs (hpow e).ne') Nat.one_pos
    | negSucc e => exact exists_ofRatio hs (hpow (e + 1))
  obtain ⟨significand, exponent, hkept, hrounds, heq⟩ := hexists
  rw [toBinary64, if_neg hs]
  split
  · next hlarge =>
    have hlt : (10 : ℚ) ^ 400 < s.value := by
      have hdigits : (1 : ℚ) ≤ s.digits := by exact_mod_cast Nat.one_le_iff_ne_zero.2 hs
      calc (10 : ℚ) ^ 400 < 10 ^ s.exponent := by
            rw [← zpow_natCast]
            exact zpow_lt_zpow_right₀ (by norm_num) hlarge
        _ ≤ s.value := le_mul_of_one_le_left (by positivity) hdigits
    exact ⟨significand, exponent, hkept, hrounds, (if_pos (maxExponent_lt hkept hrounds hlt)).symm⟩
  · split
    · next hsmall =>
      have hvalue : 0 ≤ s.value := by rw [value]; positivity
      exact ⟨0, minExponent, ⟨by decide, .inr rfl, le_rfl⟩,
        rounds_zero hvalue (value_le_of_small hsmall), rfl⟩
    · exact ⟨significand, exponent, hkept, hrounds, heq⟩

/-- A decimal number among the rationals of a number is read as this number. -/
theorem toBinary64_of_rounds {s : Scientific} (hs : s.digits ≠ 0) {significand : Nat}
    {exponent : Int} (hkept : IsKept significand exponent) (hle : exponent ≤ maxExponent)
    (hrounds : Rounds s.value significand exponent) :
    s.toBinary64 false = .finite false significand exponent := by
  obtain ⟨m, e, hkept', hrounds', heq⟩ := exists_toBinary64 hs
  obtain ⟨rfl, rfl⟩ := Rounds.unique hkept hkept' hrounds hrounds'
  rw [heq, if_neg (not_lt.2 hle)]

/-- What a decimal number is read as is infinite or a number that can be written in digits. -/
theorem toBinary64_eq_infinite_or (s : Scientific) :
    s.toBinary64 false = .infinite false ∨ (s.toBinary64 false).IsNumeral := by
  by_cases hs : s.digits = 0
  · rw [toBinary64, if_pos hs]
    exact .inr ⟨rfl, ⟨by decide, .inr rfl, le_rfl⟩, by decide⟩
  · obtain ⟨significand, exponent, hkept, -, heq⟩ := exists_toBinary64 hs
    rw [heq]
    split
    · exact .inl rfl
    · next hle => exact .inr ⟨rfl, hkept, not_lt.1 hle⟩

end Scientific

end Stencil
