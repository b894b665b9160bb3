import Mathlib.Data.List.Basic
import Stencil.Session

/-!
# Names made by the compiler

No two names that the compiler makes are equal, not even up to case: they are in lower case.
-/

namespace Stencil

namespace Text

theorem lowerAfter_eq_self (before : List Char) {cs : List Char}
    (h : ∀ c ∈ cs, c.val < 0x80 ∧ c.toLower = c) : lowerAfter before cs = cs := by
  induction cs generalizing before with
  | nil => rfl
  | cons c rest ih =>
    obtain ⟨hascii, hlower⟩ := h c List.mem_cons_self
    have hsigma : c ≠ 'Σ' := by
      rintro rfl
      exact absurd hascii (by decide)
    rw [lowerAfter, if_neg hsigma, lowerChar, if_pos hascii, hlower,
      ih _ fun d hd => h d (List.mem_cons_of_mem _ hd)]
    rfl

theorem ascii_of_isDigit {c : Char} (h : c.isDigit = true) : c.val < 0x80 ∧ c.toLower = c := by
  have hbounds : 48 ≤ c.val ∧ c.val ≤ 57 := by simpa [Char.isDigit] using h
  have hupper : ¬('A'.val ≤ c.val ∧ c.val ≤ 'Z'.val) := by
    rintro ⟨hA, -⟩
    exact absurd (UInt32.le_trans hA hbounds.2) (by decide)
  exact ⟨UInt32.lt_of_le_of_lt hbounds.2 (by decide), dif_neg hupper⟩

end Text

namespace Session

/-- The names that the compiler makes are in lower case. -/
theorem lower_symbol (n : Nat) : Text.lower (symbol n) = symbol n := by
  have hchars : ∀ c ∈ (symbol n).toList, c.val < 0x80 ∧ c.toLower = c := by
    intro c hc
    -- The characters are letters of the common beginning, or digits.
    rw [symbol, String.toList_append, List.mem_append] at hc
    rcases hc with hc | hc
    · have hletters : c = 'v' ∨ c = 'a' ∨ c = 'r' ∨ c = '_' := by simpa using hc
      rcases hletters with rfl | rfl | rfl | rfl <;> exact ⟨by decide, rfl⟩
    · rw [show toString n = n.repr from rfl, Nat.toList_repr] at hc
      exact Text.ascii_of_isDigit (Nat.isDigit_of_mem_toDigits (by omega) (by omega) hc)
  rw [Text.lower, Text.lowerAfter_eq_self [] hchars, String.ofList_toList]

theorem symbol_inj {m n : Nat} : symbol m = symbol n ↔ m = n := by
  refine ⟨fun h => ?_, congrArg symbol⟩
  have hrepr : m.repr = n.repr := (String.append_right_inj "var_").1 h
  have hdigits := congrArg String.toList hrepr
  rw [Nat.toList_repr, Nat.toList_repr] at hdigits
  -- Digits are read back as the number that they were written for.
  have hvalue := congrArg (Nat.ofDigitChars 10 · 0) hdigits
  simpa only [Nat.ofDigitChars_ten_toDigits] using hvalue

end Session

end Stencil
