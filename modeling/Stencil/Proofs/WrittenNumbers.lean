import Stencil.Proofs.ShortestDigits

/-!
# Numbers are read back

A number that can be written in digits is written as a numeral: digits, with a point between them or
without one. The numeral stands for the decimal number with the fewest digits, whatever zeros are
dropped or filled in, so reading it gives the number again.

## Main definitions

* `Numeral`: digits with or without a point

## Main results

* `Numeral.parse?_text`: a numeral is read as the decimal number that it stands for
* `NumberLayout.exists_numeral_writePositional`: the value of positional notation
* `Term.exists_numeral_writeNumber`: a number is written as a numeral that is read back
-/

namespace Stencil

theorem Scientific.value_eq_zero_iff (s : Scientific) : s.value = 0 ↔ s.digits = 0 := by
  have hpow : (10 : ℚ) ^ s.exponent ≠ 0 := zpow_ne_zero _ (by norm_num)
  rw [value, mul_eq_zero, or_iff_left hpow, Nat.cast_eq_zero]

theorem decimalValue_append (xs ys : List Char) :
    decimalValue (xs ++ ys) = decimalValue xs * Nat.pow 10 ys.length + decimalValue ys := by
  change Nat.ofDigitChars 10 (xs ++ ys) 0 =
    Nat.ofDigitChars 10 xs 0 * 10 ^ ys.length + Nat.ofDigitChars 10 ys 0
  rw [Nat.ofDigitChars_append, Nat.ofDigitChars_eq_ofDigitChars_zero, Nat.mul_comm]

theorem decimalValue_replicate_zero (n : Nat) : decimalValue (List.replicate n '0') = 0 := by
  change Nat.ofDigitChars 10 (List.replicate n '0') 0 = 0
  rw [Nat.ofDigitChars_replicate_zero, Nat.mul_zero]

/-- Digits, with a point between them or without one. -/
structure Numeral where
  whole : List Char
  fraction : List Char
  whole_ne_nil : whole ≠ []
  isDigit_whole : ∀ c ∈ whole, c.isDigit = true
  isDigit_fraction : ∀ c ∈ fraction, c.isDigit = true

namespace Numeral

/-- A point stands before digits only. -/
def afterPoint (digits : List Char) : List Char :=
  if digits.isEmpty then [] else '.' :: digits

/-- The characters of a numeral. -/
def text (n : Numeral) : List Char :=
  n.whole ++ afterPoint n.fraction

/-- The decimal number that a numeral stands for. -/
def scientific (n : Numeral) : Scientific :=
  ⟨decimalValue (n.whole ++ n.fraction), -(n.fraction.length : Int)⟩

theorem parse?_text (n : Numeral) : Scientific.parse? n.text = some n.scientific := by
  obtain ⟨whole, fraction, hne, hwhole, hfraction⟩ := n
  cases fraction with
  | nil => simpa [text, afterPoint, scientific] using Scientific.parse?_digits hne hwhole
  | cons c fraction =>
    have htake : (whole ++ '.' :: c :: fraction).takeWhile Char.isDigit = whole := by
      rw [List.takeWhile_append_of_pos hwhole]
      simp
    have hdrop : (whole ++ '.' :: c :: fraction).dropWhile Char.isDigit = '.' :: c :: fraction := by
      rw [List.dropWhile_append_of_pos hwhole]
      rfl
    have htake' : (c :: fraction).takeWhile Char.isDigit = c :: fraction :=
      List.takeWhile_eq_self_iff.2 hfraction
    have hdrop' : (c :: fraction).dropWhile Char.isDigit = [] :=
      List.dropWhile_eq_nil_iff.2 hfraction
    simp only [text, afterPoint, List.isEmpty_cons, Bool.false_eq_true, if_false, Scientific.parse?,
      htake, hdrop, htake', hdrop', Scientific.parseExponent?, scientific]
    simp

end Numeral

namespace NumberLayout

theorem exists_append_replicate (ds : List Char) :
    ∃ zeros, ds = dropTrailingZeros ds ++ List.replicate zeros '0' := by
  generalize hzeros : (ds.reverse.takeWhile (· = '0')).length = zeros
  have hlast : ds.reverse.takeWhile (· = '0') = List.replicate zeros '0' := by
    refine List.eq_replicate_iff.2 ⟨hzeros, fun c hc => ?_⟩
    simpa using List.mem_takeWhile_imp hc
  refine ⟨zeros, ?_⟩
  calc ds = ds.reverse.reverse := (List.reverse_reverse ds).symm
    _ = (ds.reverse.takeWhile (· = '0') ++ ds.reverse.dropWhile (· = '0')).reverse := by
        rw [List.takeWhile_append_dropWhile]
    _ = dropTrailingZeros ds ++ List.replicate zeros '0' := by
        rw [hlast, List.reverse_append, List.reverse_replicate, dropTrailingZeros]

/-- Positional notation is a numeral, with the value that the place of the first digit gives. -/
theorem exists_numeral_writePositional (layout : NumberLayout) {ds : List Char} (hne : ds ≠ [])
    (hds : ∀ c ∈ ds, c.isDigit = true) (power : Int) :
    ∃ n : Numeral, n.text = layout.writePositional ds power ∧
      n.scientific.value = decimalValue ds * 10 ^ (power + 1 - ds.length) := by
  have hzeros {k : Nat} : ∀ c ∈ List.replicate k '0', c.isDigit = true := by
    intro c hc
    rw [List.eq_of_mem_replicate hc]
    rfl
  cases power with
  | ofNat p =>
    rw [writePositional]
    split
    -- There are no more digits than places in front of the point, and zeros fill the rest.
    · next hle =>
      obtain ⟨zeros, hp⟩ := Nat.exists_eq_add_of_le hle
      have hpower : (Int.ofNat p : Int) + 1 - ds.length = (zeros : Nat) := by
        simp only [Int.ofNat_eq_natCast]
        omega
      rw [hpower, zpow_natCast, show p + 1 - ds.length = zeros by omega]
      refine ⟨⟨ds ++ List.replicate zeros '0', if layout.fraction then ['0'] else [], by simp [hne],
        List.forall_mem_append.2 ⟨hds, hzeros⟩, ?_⟩, ?_, ?_⟩
      · split
        · exact hzeros (k := 1)
        · exact List.forall_mem_nil _
      · cases layout.fraction <;> simp [Numeral.text, Numeral.afterPoint]
      · cases layout.fraction with
        | false =>
          simp [Numeral.scientific, Scientific.value, decimalValue_append,
            decimalValue_replicate_zero]
        | true =>
          have hvalue : decimalValue (ds ++ List.replicate zeros '0' ++ ['0']) =
              decimalValue ds * Nat.pow 10 (zeros + 1) := by
            rw [List.append_assoc, ← List.replicate_succ', decimalValue_append,
              decimalValue_replicate_zero, List.length_replicate, Nat.add_zero]
          change ((decimalValue (ds ++ List.replicate zeros '0' ++ ['0']) : Nat) : ℚ) *
            10 ^ (-1 : Int) = _
          rw [hvalue, zpow_neg_one, Nat.cast_mul, Nat.pow_eq, Nat.cast_pow, pow_succ]
          push_cast
          ring
    · next hlt =>
      refine ⟨⟨ds.take (p + 1), ds.drop (p + 1), by simp [hne],
        fun c hc => hds c (List.mem_of_mem_take hc),
        fun c hc => hds c (List.mem_of_mem_drop hc)⟩, ?_, ?_⟩
      · have hdrop : ds.drop (p + 1) ≠ [] := by
          rw [Ne, List.drop_eq_nil_iff]
          exact hlt
        simp [Numeral.text, Numeral.afterPoint, hdrop]
      · have hlength : (Int.ofNat p : Int) + 1 - ds.length = -((ds.drop (p + 1)).length : Int) := by
          rw [List.length_drop, Int.ofNat_eq_natCast]
          omega
        rw [Numeral.scientific, Scientific.value, List.take_append_drop, hlength]
  | negSucc p =>
    refine ⟨⟨['0'], List.replicate p '0' ++ ds, by simp, hzeros (k := 1),
      List.forall_mem_append.2 ⟨hzeros, hds⟩⟩, ?_, ?_⟩
    · simp [Numeral.text, Numeral.afterPoint, writePositional, hne]
    · have hvalue : decimalValue (['0'] ++ (List.replicate p '0' ++ ds)) = decimalValue ds := by
        rw [decimalValue_append, decimalValue_append, decimalValue_replicate_zero,
          show decimalValue ['0'] = 0 from rfl, Nat.zero_mul, Nat.zero_mul, Nat.zero_add,
          Nat.zero_add]
      have hlength : (Int.negSucc p : Int) + 1 - ds.length =
          -((List.replicate p '0' ++ ds).length : Int) := by
        rw [List.length_append, List.length_replicate]
        omega
      rw [Numeral.scientific, Scientific.value, hvalue, hlength]

theorem writeFinite_plain {significand : Nat} (hs : significand ≠ 0) (exponent : Int) :
    plain.writeFinite significand exponent =
      plain.writePositional
        (dropTrailingZeros (Nat.toDigits 10 (Binary64.shortest .up significand exponent).digits))
        ((Binary64.shortest .up significand exponent).exponent +
          (Nat.toDigits 10 (Binary64.shortest .up significand exponent).digits).length - 1) := by
  simp only [writeFinite, if_neg hs]
  rfl

/-- A positive number is written as a numeral that is read back. -/
theorem exists_numeral_writeFinite {significand : Nat} {exponent : Int} (hs : significand ≠ 0)
    (hkept : Binary64.IsKept significand exponent) (hle : exponent ≤ Binary64.maxExponent) :
    ∃ n : Numeral, n.text = plain.writeFinite significand exponent ∧
      n.scientific.toBinary64 false = .finite false significand exponent := by
  obtain ⟨hdigits, hrounds⟩ := Binary64.rounds_shortest hs hkept .up
  rw [writeFinite_plain hs]
  generalize Binary64.shortest .up significand exponent = s at *
  have hread : decimalValue (Nat.toDigits 10 s.digits) = s.digits := Nat.ofDigitChars_ten_toDigits
  have hall : ∀ c ∈ Nat.toDigits 10 s.digits, c.isDigit = true := fun c hc =>
    Nat.isDigit_of_mem_toDigits (by decide) (by decide) hc
  generalize Nat.toDigits 10 s.digits = ds at *
  obtain ⟨zeros, hzeros⟩ := exists_append_replicate ds
  have hvalue : decimalValue (dropTrailingZeros ds) * Nat.pow 10 zeros = s.digits := by
    rw [← hread]
    conv_rhs => rw [hzeros]
    rw [decimalValue_append, decimalValue_replicate_zero, List.length_replicate, Nat.add_zero]
  have hne : dropTrailingZeros ds ≠ [] := by
    intro hnil
    rw [hnil] at hvalue
    exact hdigits (hvalue.symm.trans (Nat.zero_mul _))
  have hlength : (ds.length : Int) = (dropTrailingZeros ds).length + zeros := by
    conv_lhs => rw [hzeros]
    simp
  obtain ⟨n, htext, hn⟩ := exists_numeral_writePositional plain hne
    (fun c hc => hall c (by rw [hzeros]; exact List.mem_append_left _ hc))
    (s.exponent + ds.length - 1)
  have hsame : n.scientific.value = s.value := by
    have hpower : s.exponent + (ds.length : Int) - 1 + 1 - (dropTrailingZeros ds).length =
        zeros + s.exponent := by
      rw [hlength]
      ring
    rw [hn, Scientific.value, ← hvalue, hpower, zpow_add₀ (by norm_num), zpow_natCast,
      Nat.cast_mul, Nat.pow_eq, Nat.cast_pow]
    push_cast
    ring
  have hdigits : n.scientific.digits ≠ 0 := by
    rwa [Ne, ← Scientific.value_eq_zero_iff, hsame, Scientific.value_eq_zero_iff]
  rw [← hsame] at hrounds
  exact ⟨n, htext, Scientific.toBinary64_of_rounds hdigits hkept hle hrounds⟩

end NumberLayout

namespace Binary64

variable {significand : Nat} {exponent : Int}

/-- Without a sign, the integer that a number is is natural. -/
theorem exists_natural_of_integer? {n : Int}
    (h : (finite false significand exponent).integer? = some n) : ∃ k : Nat, n = k := by
  cases exponent with
  | ofNat e => exact ⟨_, (Option.some.inj h).symm⟩
  | negSucc e =>
    rw [integer?] at h
    simp only at h
    split at h
    · exact ⟨_, (Option.some.inj h).symm⟩
    · cases h

theorem integer?_zero (exponent : Int) : (finite false 0 exponent).integer? = some 0 := by
  cases exponent with
  | ofNat e => simp [integer?]
  | negSucc e => simp [integer?]

theorem withoutZeroSign_eq_self (hkept : IsKept significand exponent) :
    (finite false significand exponent).withoutZeroSign = finite false significand exponent := by
  by_cases hs : significand = 0
  · subst hs
    obtain rfl := hkept.full.resolve_left (by decide)
    rfl
  · simp [withoutZeroSign, isZero, hs]

end Binary64

/-- A number that can be written in digits is written as a numeral, which is read back. -/
theorem Term.exists_numeral_writeNumber {value : Binary64} (hvalue : value.IsNumeral) :
    ∃ n : Numeral, n.text = (writeNumber value).toList ∧ n.scientific.toBinary64 false = value := by
  cases value with
  | infinite => exact hvalue.elim
  | finite negative significand exponent =>
    obtain ⟨rfl, hkept, hle⟩ := hvalue
    by_cases hsmall : ∃ k : Nat,
        (Binary64.finite false significand exponent).integer? = some (k : Int) ∧ k < Nat.pow 10 15
    · obtain ⟨k, hinteger, hlt⟩ := hsmall
      have hcanonical : (Binary64.finite false significand exponent).Canonical :=
        ⟨hkept.lt, hkept.full⟩
      obtain ⟨read, hparse, hread⟩ := exists_parse?_writeNumber hcanonical hinteger hlt
      rw [Binary64.withoutZeroSign_eq_self hkept] at hread
      let n : Numeral := ⟨Nat.toDigits 10 k, [], Nat.toDigits_ne_nil,
        fun c hc => Nat.isDigit_of_mem_toDigits (by decide) (by decide) hc, List.forall_mem_nil _⟩
      have htext : n.text = (writeNumber (.finite false significand exponent)).toList := by
        rw [writeNumber_of_integer? hinteger hlt]
        exact List.append_nil _
      rw [← htext, n.parse?_text] at hparse
      refine ⟨n, htext, ?_⟩
      rw [Option.some.inj hparse, hread]
    · -- Every other number is written with the fewest digits.
      have hwrite : writeNumber (.finite false significand exponent) =
          NumberLayout.plain.write (.finite false significand exponent) := by
        rw [writeNumber]
        split
        · next n hinteger =>
          obtain ⟨k, rfl⟩ := Binary64.exists_natural_of_integer? hinteger
          exact if_neg fun hlt => hsmall ⟨k, hinteger, hlt⟩
        · rfl
      have hs : significand ≠ 0 := by
        rintro rfl
        exact hsmall ⟨0, Binary64.integer?_zero exponent, by decide⟩
      obtain ⟨n, htext, hread⟩ := NumberLayout.exists_numeral_writeFinite hs hkept hle
      refine ⟨n, ?_, hread⟩
      rw [hwrite, htext]
      simp [NumberLayout.write]

end Stencil
