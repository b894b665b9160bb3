import Stencil.Proofs.Rounding

/-!
# The fewest digits are read back

The decimal number that is chosen for a binary one lies among the rationals of the binary number, so
it is read back as this number. There is such a decimal number on one of the seventeen grids that
are tried: the last grid is finer than the distance between the ends.

## Main results

* `Binary64.holds_interval_iff`: the test for a decimal number in the interval
* `Binary64.rounds_shortest`: the decimal number that is found belongs to the number
-/

namespace Stencil

namespace Binary64

variable {significand : Nat} {exponent : Int}

/-! ### The interval -/

/-- The interval of a number, with a quarter of the last bit as a quotient. -/
theorem exists_interval_eq (significand : Nat) (exponent : Int) :
    ∃ factor den : Nat, 0 < den ∧ (factor : ℚ) = 2 ^ (exponent - 2) * den ∧
      interval significand exponent =
        ⟨(4 * significand - below significand exponent) * factor, 4 * significand * factor,
          (4 * significand + 2) * factor, den, significand % 2 = 0⟩ := by
  cases hunit : exponent - 2 with
  | ofNat e =>
    refine ⟨Nat.pow 2 e, 1, Nat.one_pos, by simp, ?_⟩
    simp only [interval, hunit, below]
  | negSucc e =>
    refine ⟨1, Nat.pow 2 (e + 1), Nat.two_pow_pos (e + 1), ?_, ?_⟩
    · rw [zpow_negSucc]
      simp
    · simp only [interval, hunit, below]

theorem den_interval_pos (significand : Nat) (exponent : Int) :
    0 < (interval significand exponent).den := by
  obtain ⟨factor, den, hden, -, heq⟩ := exists_interval_eq significand exponent
  rw [heq]
  exact hden

theorem value_interval (significand : Nat) (exponent : Int) :
    ((interval significand exponent).value : ℚ) =
      significand * 2 ^ exponent * (interval significand exponent).den := by
  obtain ⟨factor, den, -, hfactor, heq⟩ := exists_interval_eq significand exponent
  rw [heq, zpow_eq_four_mul]
  push_cast
  rw [hfactor]
  ring

theorem high_interval (significand : Nat) (exponent : Int) :
    ((interval significand exponent).high : ℚ) =
      upper significand exponent * (interval significand exponent).den := by
  obtain ⟨factor, den, -, hfactor, heq⟩ := exists_interval_eq significand exponent
  rw [heq, upper]
  push_cast
  rw [hfactor]
  ring

theorem low_interval (hs : significand ≠ 0) (exponent : Int) :
    ((interval significand exponent).low : ℚ) =
      lower significand exponent * (interval significand exponent).den := by
  obtain ⟨factor, den, -, hfactor, heq⟩ := exists_interval_eq significand exponent
  have hbelow : below significand exponent ≤ 4 * significand := by
    have := below_le_two significand exponent
    omega
  rw [heq, lower]
  push_cast [Nat.cast_sub hbelow]
  rw [hfactor]
  ring

/-! ### A grid -/

/-- A point of a grid is compared with the ends of the interval after both have been multiplied by a
common denominator. -/
structure IsGrid (i : Interval) (power : Int) (factor unit : Nat) : Prop where
  pos : 0 < factor
  eq : (unit : ℚ) = 10 ^ power * i.den * factor

/-- Numerators over one denominator are compared as the quotients. -/
theorem numerator_le_iff {m n : Nat} {x y den : ℚ} (hden : 0 < den) (hm : (m : ℚ) = x * den)
    (hn : (n : ℚ) = y * den) : m ≤ n ↔ x ≤ y := by
  rw [← @Nat.cast_le ℚ, hm, hn, mul_le_mul_iff_left₀ hden]

namespace IsGrid

variable {i : Interval} {power : Int} {factor unit : Nat}

theorem cast_mul_unit (h : IsGrid i power factor unit) (n : Nat) :
    ((n * unit : Nat) : ℚ) = n * 10 ^ power * (i.den * factor) := by
  rw [Nat.cast_mul, h.eq]
  ring

theorem cast_mul_factor {n : Nat} {x : ℚ} (hn : (n : ℚ) = x * i.den) (factor : Nat) :
    ((n * factor : Nat) : ℚ) = x * (i.den * factor) := by
  rw [Nat.cast_mul, hn, mul_assoc]

theorem common_pos (h : IsGrid i power factor unit) (hden : 0 < i.den) :
    (0 : ℚ) < i.den * factor := by
  have := h.pos
  positivity

/-- The points of the grid on the two sides of a value. -/
theorem le_value_lt (h : IsGrid i power factor unit) (hden : 0 < i.den) {x : ℚ}
    (hx : (i.value : ℚ) = x * i.den) :
    ((i.value * factor / unit : Nat) : ℚ) * 10 ^ power ≤ x ∧
      x < ((i.value * factor / unit + 1 : Nat) : ℚ) * 10 ^ power := by
  have hcommon := h.common_pos hden
  have hvalue := cast_mul_factor hx factor
  have hpos : 0 < unit := by
    have hcast : (0 : ℚ) < unit := by
      rw [h.eq, mul_assoc]
      exact mul_pos (by positivity) hcommon
    exact_mod_cast hcast
  constructor
  · rw [← numerator_le_iff hcommon (h.cast_mul_unit _) hvalue]
    exact Nat.div_mul_le_self _ _
  · rw [← not_le, ← numerator_le_iff hcommon (h.cast_mul_unit _) hvalue, not_le,
      ← Nat.div_lt_iff_lt_mul hpos]
    exact Nat.lt_succ_self _

end IsGrid

/-- Of the two points beside the value, the nearest one that is held. -/
def nearest? (tie : Tie) (value unit : Nat) (holds : Nat → Bool) : Option Nat :=
  let n := value / unit
  match holds n, holds (n + 1) with
  | false, false => none
  | true, false => some n
  | false, true => some (n + 1)
  | true, true =>
    let middle := (2 * n + 1) * unit
    if 2 * value < middle then some n
    else if middle < 2 * value then some (n + 1)
    else match tie with
      | .up => some (n + 1)
      | .toEven => some (if n % 2 = 0 then n else n + 1)

theorem exists_multiple?_eq (i : Interval) (tie : Tie) (power : Int) :
    ∃ factor unit, IsGrid i power factor unit ∧
      i.multiple? tie power = nearest? tie (i.value * factor) unit
        (Interval.holds i.closed (i.low * factor) (i.high * factor) unit) := by
  cases power with
  | ofNat e =>
    refine ⟨1, i.den * Nat.pow 10 e, ⟨Nat.one_pos, ?_⟩, rfl⟩
    simp
    ring
  | negSucc e =>
    refine ⟨Nat.pow 10 (e + 1), i.den, ⟨Nat.pow_pos (by decide), ?_⟩, rfl⟩
    rw [zpow_negSucc]
    simp
    field_simp

theorem holds_of_nearest? {tie : Tie} {value unit n : Nat} {holds : Nat → Bool}
    (h : nearest? tie value unit holds = some n) : holds n = true := by
  simp only [nearest?] at h
  generalize value / unit = first at h
  cases hfirst : holds first <;> cases hsecond : holds (first + 1) <;>
    simp only [hfirst, hsecond] at h
  · cases h
  · rwa [← Option.some.inj h]
  · rwa [← Option.some.inj h]
  · split at h
    · rwa [← Option.some.inj h]
    · split at h
      · rwa [← Option.some.inj h]
      · cases tie with
        | up => rwa [← Option.some.inj h]
        | toEven =>
          rw [← Option.some.inj h]
          split <;> assumption

theorem not_holds_of_nearest?_eq_none {tie : Tie} {value unit : Nat} {holds : Nat → Bool}
    (h : nearest? tie value unit holds = none) :
    holds (value / unit) = false ∧ holds (value / unit + 1) = false := by
  simp only [nearest?] at h
  generalize value / unit = first at h ⊢
  cases hfirst : holds first <;> cases hsecond : holds (first + 1) <;>
    simp only [hfirst, hsecond] at h
  · exact ⟨rfl, rfl⟩
  · cases h
  · cases h
  · split at h
    · cases h
    · split at h
      · cases h
      · cases tie <;> cases h

/-- The test for a decimal number in the interval. -/
theorem holds_interval_iff (hs : significand ≠ 0) {power : Int} {factor unit : Nat}
    (hgrid : IsGrid (interval significand exponent) power factor unit) (n : Nat) :
    Interval.holds (interval significand exponent).closed
        ((interval significand exponent).low * factor)
        ((interval significand exponent).high * factor) unit n = true ↔
      Rounds (n * 10 ^ power) significand exponent := by
  have hlow := low_interval hs exponent
  have hhigh := high_interval significand exponent
  have hden := den_interval_pos significand exponent
  have hclosed : (interval significand exponent).closed = decide (significand % 2 = 0) := rfl
  have hcommon := hgrid.common_pos hden
  have hlow := IsGrid.cast_mul_factor hlow factor
  have hhigh := IsGrid.cast_mul_factor hhigh factor
  have hpoint := hgrid.cast_mul_unit n
  generalize interval significand exponent = i at *
  rw [Interval.holds, hclosed]
  by_cases heven : significand % 2 = 0
  · simp only [heven, decide_true, if_true, Bool.and_eq_true, decide_eq_true_eq]
    rw [numerator_le_iff hcommon hlow hpoint, numerator_le_iff hcommon hpoint hhigh]
    exact ⟨fun h => ⟨h.1, h.2, fun hodd => by omega⟩, fun h => ⟨h.1, h.2⟩⟩
  · simp only [heven, decide_false, Bool.false_eq_true, if_false, Bool.and_eq_true,
      decide_eq_true_eq]
    rw [← not_le, ← not_le, numerator_le_iff hcommon hpoint hlow,
      numerator_le_iff hcommon hhigh hpoint, not_le, not_le]
    exact ⟨fun h => ⟨h.1.le, h.2.le, fun _ => h⟩, fun h => h.of_odd (by omega)⟩

/-- A point that is taken belongs to the number. -/
theorem rounds_of_multiple? (hs : significand ≠ 0) {tie : Tie} {power : Int} {n : Nat}
    (h : (interval significand exponent).multiple? tie power = some n) :
    Rounds (n * 10 ^ power) significand exponent := by
  obtain ⟨factor, unit, hgrid, heq⟩ := exists_multiple?_eq (interval significand exponent) tie power
  rw [heq] at h
  exact (holds_interval_iff hs hgrid n).1 (holds_of_nearest? h)

theorem lower_lt_value (significand : Nat) (exponent : Int) :
    lower significand exponent < significand * 2 ^ exponent := by
  have hbelow : (1 : ℚ) ≤ below significand exponent := by
    have : 1 ≤ below significand exponent := by
      rw [below]
      split <;> decide
    exact_mod_cast this
  have hpos := two_zpow_pos (exponent - 2)
  rw [lower, zpow_eq_four_mul exponent, ← mul_assoc]
  exact mul_lt_mul_of_pos_right (by linarith) hpos

theorem value_lt_upper (significand : Nat) (exponent : Int) :
    (significand * 2 ^ exponent : ℚ) < upper significand exponent := by
  have hpos := two_zpow_pos (exponent - 2)
  rw [upper, zpow_eq_four_mul exponent, ← mul_assoc]
  exact mul_lt_mul_of_pos_right (by linarith) hpos

/-- A grid that is finer than the distance between the ends has a point among the rationals. -/
theorem multiple?_ne_none (hs : significand ≠ 0) {tie : Tie} {power : Int}
    (hfine : (10 : ℚ) ^ power < upper significand exponent - lower significand exponent) :
    (interval significand exponent).multiple? tie power ≠ none := by
  obtain ⟨factor, unit, hgrid, heq⟩ := exists_multiple?_eq (interval significand exponent) tie power
  rw [heq]
  intro hnone
  obtain ⟨hfirst, hsecond⟩ := not_holds_of_nearest?_eq_none hnone
  -- The points on the two sides of the value are not between the ends.
  have hends {n : Nat} (hn : Interval.holds (interval significand exponent).closed
      ((interval significand exponent).low * factor)
      ((interval significand exponent).high * factor) unit n = false) :
      lower significand exponent < n * 10 ^ power →
        upper significand exponent ≤ n * 10 ^ power := by
    intro hlow
    by_contra hhigh
    have hbetween := And.intro hlow (not_le.1 hhigh)
    have hrounds : Rounds (n * 10 ^ power) significand exponent :=
      ⟨hbetween.1.le, hbetween.2.le, fun _ => hbetween⟩
    rw [← holds_interval_iff hs hgrid, hn] at hrounds
    cases hrounds
  obtain ⟨hbefore, hafter⟩ := hgrid.le_value_lt (den_interval_pos significand exponent)
    (value_interval significand exponent)
  generalize (interval significand exponent).value * factor / unit = n at *
  have hlow : (n * 10 ^ power : ℚ) ≤ lower significand exponent := by
    by_contra hlow
    have hhigh := hends hfirst (not_le.1 hlow)
    exact absurd (hhigh.trans hbefore) (not_le.2 (value_lt_upper significand exponent))
  have hhigh := hends hsecond ((lower_lt_value significand exponent).trans hafter)
  push_cast at hhigh
  linarith

/-! ### The search -/

theorem le_of_leadingZeros {limit num den : Nat} (h : (den : ℚ) ≤ 10 ^ limit * num) :
    (den : ℚ) ≤ 10 ^ (leadingZeros limit num den + 1) * num := by
  induction limit generalizing num with
  | zero =>
    have hnum : (0 : ℚ) ≤ num := Nat.cast_nonneg num
    rw [pow_zero, one_mul] at h
    rw [leadingZeros, zero_add, pow_one]
    linarith
  | succ limit ih =>
    rw [leadingZeros]
    split
    · next hfirst =>
      have hcast : (den : ℚ) ≤ 10 * num := by exact_mod_cast hfirst
      simpa using hcast
    · have hnext : (den : ℚ) ≤ 10 ^ limit * (10 * num : Nat) := by
        refine h.trans_eq ?_
        push_cast
        ring
      refine (ih hnext).trans_eq ?_
      push_cast
      ring

/-- The power of ten just above a quotient is not too large. -/
theorem zpow_magnitude_le {num den : Nat} (hden : 0 < den)
    (h : (den : ℚ) ≤ 10 ^ 400 * num) : (10 : ℚ) ^ (magnitude num den - 1) ≤ num / den := by
  have hpos : (0 : ℚ) < den := by exact_mod_cast hden
  rw [le_div_iff₀ hpos, magnitude]
  split
  · next hle =>
    have hquotient : 0 < num / den := Nat.div_pos hle hden
    generalize hlength : (Nat.toDigits 10 (num / den)).length = length
    have hdigits : 10 ^ (length - 1) ≤ num / den := by
      by_cases hone : length - 1 = 0
      · rw [hone]
        exact hquotient
      · refine not_lt.1 fun hlt => ?_
        have hshort := (Nat.length_toDigits_le_iff (by decide) (by omega)).2 hlt
        omega
    have hlengthPos : 0 < length := hlength ▸ Nat.length_toDigits_pos
    have hcast : (10 : ℚ) ^ (length - 1) * den ≤ num := by
      exact_mod_cast (Nat.le_div_iff_mul_le hden).1 hdigits
    rwa [show (length : Int) - 1 = (length - 1 : Nat) by omega, zpow_natCast]
  · have hzeros := le_of_leadingZeros h
    generalize leadingZeros 400 num den = zeros at hzeros
    rw [show -(zeros : Int) - 1 = -((zeros + 1 : Nat) : Int) by omega, zpow_neg, zpow_natCast]
    rwa [inv_mul_le_iff₀ (by positivity)]

/-- If the last grid has a point, one of the grids gives the result. -/
theorem exists_search_eq {i : Interval} {tie : Tie} {top : Int} {grids : Nat}
    (h : i.multiple? tie (top - (grids + 1)) ≠ none) :
    ∃ n power, i.search tie top (grids + 1) = ⟨n, power⟩ ∧ i.multiple? tie power = some n := by
  induction grids generalizing top with
  | zero =>
    rw [Interval.search]
    cases hfirst : i.multiple? tie (top - 1) with
    | some n => exact ⟨n, top - 1, rfl, hfirst⟩
    | none => exact absurd hfirst (by simpa using h)
  | succ grids ih =>
    rw [Interval.search]
    cases hfirst : i.multiple? tie (top - 1) with
    | some n => exact ⟨n, top - 1, rfl, hfirst⟩
    | none =>
      refine ih ?_
      rwa [show top - 1 - (grids + 1 : Int) = top - ((grids + 1 : Nat) + 1) by push_cast; ring]

/-- The last of seventeen grids is finer than the distance between the ends. -/
theorem zpow_lt_upper_sub_lower (hkept : IsKept significand exponent) {top : Int}
    (htop : (10 : ℚ) ^ (top - 1) ≤ significand * 2 ^ exponent) :
    (10 : ℚ) ^ (top - 17) < upper significand exponent - lower significand exponent := by
  -- Seventeen digits tell more values apart than a significand has, also below a power of two.
  have hdigits : 4 * significand < (2 + below significand exponent) * 10 ^ 16 := by
    have hlt := hkept.lt
    rw [below]
    split
    · next h =>
      rw [h.1]
      decide
    · omega
  have hcast : (4 * significand : ℚ) < (2 + below significand exponent) * 10 ^ 16 := by
    exact_mod_cast hdigits
  have hpos := two_zpow_pos (exponent - 2)
  have hsplit : (10 : ℚ) ^ (top - 1) = 10 ^ (top - 17) * 10 ^ 16 := by
    rw [← zpow_natCast, ← zpow_add₀ (by norm_num)]
    congr 1
    push_cast
    ring
  have hdistance : upper significand exponent - lower significand exponent =
      (2 + below significand exponent) * 2 ^ (exponent - 2) := by
    rw [upper, lower]
    ring
  rw [hsplit, zpow_eq_four_mul] at htop
  rw [hdistance]
  have hbelow := mul_lt_mul_of_pos_right hcast hpos
  refine lt_of_mul_lt_mul_right ?_ (show (0 : ℚ) ≤ 10 ^ 16 by positivity)
  linarith

/-- The number is far enough from zero for its first digit to be found. -/
theorem den_interval_le (hs : significand ≠ 0) (hmin : minExponent ≤ exponent) :
    ((interval significand exponent).den : ℚ) ≤
      10 ^ 400 * (interval significand exponent).value := by
  have hvalue := value_interval significand exponent
  generalize interval significand exponent = i at *
  have hsmall : (1 : ℚ) ≤ 10 ^ 400 * 2 ^ exponent := by
    have hten : (2 : ℚ) ^ 1074 ≤ 10 ^ 400 := Scientific.two_pow_le_ten_pow (by decide +kernel)
    have hleast : ((2 : ℚ) ^ 1074)⁻¹ ≤ 2 ^ exponent := by
      rw [← zpow_natCast, ← zpow_neg]
      exact zpow_le_zpow_right₀ one_le_two hmin
    calc (1 : ℚ) = 2 ^ 1074 * (2 ^ 1074)⁻¹ := (mul_inv_cancel₀ (by positivity)).symm
      _ ≤ 10 ^ 400 * 2 ^ exponent := mul_le_mul hten hleast (by positivity) (by positivity)
  have hone : (1 : ℚ) ≤ significand := by exact_mod_cast Nat.one_le_iff_ne_zero.2 hs
  rw [hvalue]
  generalize (10 : ℚ) ^ 400 = bound at hsmall ⊢
  calc (i.den : ℚ) = 1 * 1 * i.den := by ring
    _ ≤ significand * (bound * 2 ^ exponent) * i.den := by gcongr
    _ = bound * (significand * 2 ^ exponent * i.den) := by ring

/-- The decimal number that is found belongs to the number. -/
theorem rounds_shortest (hs : significand ≠ 0) (hkept : IsKept significand exponent) (tie : Tie) :
    (shortest tie significand exponent).digits ≠ 0 ∧
      Rounds (shortest tie significand exponent).value significand exponent := by
  have hden := den_interval_pos significand exponent
  have hmagnitude := zpow_magnitude_le hden (den_interval_le hs hkept.min_le)
  have hcast : ((interval significand exponent).den : ℚ) ≠ 0 := by positivity
  rw [value_interval, mul_div_cancel_right₀ _ hcast] at hmagnitude
  have hlast := zpow_lt_upper_sub_lower hkept hmagnitude
  have hpoint : (interval significand exponent).multiple? tie
      (magnitude (interval significand exponent).value (interval significand exponent).den -
        ((16 : Nat) + 1)) ≠ none := multiple?_ne_none hs hlast
  obtain ⟨n, power, hsearch, hmultiple⟩ := exists_search_eq hpoint
  have hrounds := rounds_of_multiple? hs hmultiple
  rw [shortest, hsearch]
  refine ⟨?_, hrounds⟩
  rintro rfl
  -- Zero lies below the ends.
  have hlower : 0 < lower significand exponent := by
    have hbelow : (below significand exponent : ℚ) ≤ 2 := by
      exact_mod_cast below_le_two significand exponent
    have hone : (1 : ℚ) ≤ significand := by exact_mod_cast Nat.one_le_iff_ne_zero.2 hs
    exact mul_pos (by linarith) (two_zpow_pos _)
  have hle := hrounds.lower_le
  rw [Nat.cast_zero, zero_mul] at hle
  exact absurd hle (not_le.2 hlower)

end Binary64

end Stencil
