import Stencil.Extension
import Stencil.Proofs.Lexing

/-!
# Placeholders are replaced in one pass

A pattern is a sequence of literal texts and placeholders, which are numbers between braces. What is
put in the place of a placeholder is not looked at again, so parameters come out as they are, also
those that look like placeholders. A placeholder whose number is too large stays as it is written.

## Main definitions

* `Extension.Segment`: a part of a pattern
* `Extension.Segment.written`, `Extension.Segment.shown`: its text before and after the pass

## Main results

* `Extension.placeholder?_written`: a placeholder is found as a whole
* `Extension.substituteChars_segment`: one segment in front of a pattern
* `Extension.substitute_segments`: all segments of a pattern
-/

namespace Stencil

/-! ### Classes of characters -/

theorem isDecimalDigit_of_isDigit {c : Char} (h : c.isDigit = true) :
    Text.isDecimalDigit c = true := by
  have hhigh : c.val ≤ '9'.val := by
    rw [Char.isDigit, Bool.and_eq_true, decide_eq_true_eq, decide_eq_true_eq] at h
    exact h.2
  have hascii : c.val < 0x80 := UInt32.lt_of_le_of_lt hhigh (by decide)
  rw [Text.isDecimalDigit, if_pos hascii, h]

/-- The blanks beyond ASCII. -/
def blankCodes : List Nat :=
  [0x85, 0xA0, 0x1680, 0x2000, 0x2001, 0x2002, 0x2003, 0x2004, 0x2005, 0x2006, 0x2007, 0x2008,
    0x2009, 0x200A, 0x2028, 0x2029, 0x202F, 0x205F, 0x3000]

theorem toNat_mem_blankCodes {c : Char} (hascii : ¬ c.val < 0x80) (h : Text.isBlank c = true) :
    c.toNat ∈ blankCodes := by
  rw [Text.isBlank, if_neg hascii] at h
  simp only [Bool.or_eq_true, Bool.and_eq_true, decide_eq_true_eq, ← UInt32.toNat_inj,
    UInt32.le_iff_toNat_le] at h
  have hcodes : c.val.toNat ∈ blankCodes := by
    simp only [blankCodes, List.mem_cons, List.not_mem_nil, or_false]
    simp only [UInt32.reduceToNat] at h
    omega
  exact hcodes

/-- No blank is a decimal digit. -/
theorem isDecimalDigit_of_isBlank {c : Char} (h : Text.isBlank c = true) :
    Text.isDecimalDigit c = false := by
  rw [Text.isDecimalDigit]
  split
  · rw [← Bool.not_eq_true]
    intro hdigit
    rw [isBlank_of_isDigit hdigit] at h
    cases h
  · next hascii =>
    have hcodes : ∀ n ∈ blankCodes, Text.decimalDigitRanges.contains n = false := by decide
    exact hcodes c.toNat (toNat_mem_blankCodes hascii h)

namespace Extension

variable {parameters : List String} {rest : List Char}

/-! ### Segments -/

/-- A part of a pattern. -/
inductive Segment where
  /-- A text without an opening brace. -/
  | literal (text : String) (hbrace : '\x7b' ∉ text.toList)
  /-- A number between braces, in ASCII digits and with blanks around it. -/
  | placeholder (before digits after : String)
      (hbefore : ∀ c ∈ before.toList, Text.isBlank c = true) (hdigits : digits ≠ "")
      (hdigit : ∀ c ∈ digits.toList, c.isDigit = true)
      (hafter : ∀ c ∈ after.toList, Text.isBlank c = true)

namespace Segment

/-- The segment as it stands in a pattern. -/
def written : Segment → String
  | .literal text _ => text
  | .placeholder before digits after _ _ _ _ => "\x7b" ++ before ++ digits ++ after ++ "\x7d"

/-- What stands in the place of the segment: the parameter that a placeholder gives the number of,
if there is one, else the segment as it is written. -/
def shown (parameters : List String) (segment : Segment) : String :=
  match segment with
  | .literal text _ => text
  | .placeholder _ digits _ _ _ _ _ => parameters[decimalValue digits.toList]?.getD segment.written

end Segment

/-! ### The pass over a pattern -/

/-- A run of characters of a class goes up to what is not of the class. -/
theorem span_append {p : Char → Bool} {run rest : List Char} (hrun : ∀ c ∈ run, p c = true)
    (hrest : rest.head?.any p = false) :
    (run ++ rest).takeWhile p = run ∧ (run ++ rest).dropWhile p = rest := by
  rw [List.takeWhile_append_of_pos hrun, List.dropWhile_append_of_pos hrun]
  cases rest with
  | nil => exact ⟨List.append_nil run, rfl⟩
  | cons c rest =>
    have hc : ¬ p c = true := by simpa using hrest
    rw [List.takeWhile_cons_of_neg hc, List.dropWhile_cons_of_neg hc, List.append_nil]
    exact ⟨rfl, rfl⟩

/-- A placeholder is found as a whole, whatever follows it. -/
theorem placeholder?_written {before digits after : List Char}
    (hbefore : ∀ c ∈ before, Text.isBlank c = true) (hne : digits ≠ [])
    (hdigit : ∀ c ∈ digits, c.isDigit = true) (hafter : ∀ c ∈ after, Text.isBlank c = true)
    (rest : List Char) :
    placeholder? ('\x7b' :: (before ++ (digits ++ (after ++ '\x7d' :: rest)))) =
      some ('\x7b' :: before ++ digits ++ after ++ ['\x7d'], digits, rest) := by
  have hfirst : (digits ++ (after ++ '\x7d' :: rest)).head?.any Text.isBlank = false := by
    obtain ⟨first, more, rfl⟩ := List.exists_cons_of_ne_nil hne
    exact isBlank_of_isDigit (hdigit first List.mem_cons_self)
  have hbehind : (after ++ '\x7d' :: rest).head?.any Text.isDecimalDigit = false := by
    cases after with
    | nil => exact (by decide : Text.isDecimalDigit '\x7d' = false)
    | cons c after => exact isDecimalDigit_of_isBlank (hafter c List.mem_cons_self)
  have hclose : ('\x7d' :: rest).head?.any Text.isBlank = false :=
    (by decide : Text.isBlank '\x7d' = false)
  -- Each of the three parts goes up to a character that is not of its kind.
  obtain ⟨htake₁, hdrop₁⟩ := span_append hbefore hfirst
  obtain ⟨htake₂, hdrop₂⟩ := span_append
    (fun c hc => isDecimalDigit_of_isDigit (hdigit c hc)) hbehind
  obtain ⟨htake₃, hdrop₃⟩ := span_append hafter hclose
  have hnonempty : digits.isEmpty = false := by simpa using hne
  simp only [placeholder?, htake₁, hdrop₁, htake₂, hdrop₂, htake₃, hdrop₃, hnonempty,
    Bool.false_eq_true, if_false]

theorem placeholder?_of_ne {c : Char} (h : c ≠ '\x7b') (rest : List Char) :
    placeholder? (c :: rest) = none := by
  unfold placeholder?
  split
  · next heq => exact absurd (List.cons.inj heq).1 h
  · rfl

theorem substituteChars_of_some {whole digits pattern : List Char}
    (h : placeholder? pattern = some (whole, digits, rest)) :
    substituteChars parameters pattern =
      ((parameter? parameters digits).map String.toList).getD whole ++
        substituteChars parameters rest := by
  rw [substituteChars]
  split
  · next whole' digits' rest' heq =>
    rw [h] at heq
    obtain ⟨rfl, rfl, rfl⟩ := by simpa using heq
    cases parameter? parameters digits <;> rfl
  · next heq => rw [h] at heq; cases heq

/-- A text without an opening brace is taken over. -/
theorem substituteChars_literal {text : List Char} (h : '\x7b' ∉ text) (rest : List Char) :
    substituteChars parameters (text ++ rest) = text ++ substituteChars parameters rest := by
  induction text with
  | nil => rfl
  | cons c text ih =>
    rw [List.mem_cons, not_or] at h
    obtain ⟨hc, htext⟩ := h
    have hnone := placeholder?_of_ne (Ne.symm hc) (text ++ rest)
    rw [List.cons_append, substituteChars]
    split
    · next heq => rw [hnone] at heq; cases heq
    · exact congrArg (c :: ·) (ih htext)

/-- Of ASCII digits the parameter is read off the parameters that have a number. -/
theorem parameter?_of_isDigit {digits : List Char} (h : ∀ c ∈ digits, c.isDigit = true) :
    parameter? parameters digits = (parameters.take (Nat.pow 2 64))[decimalValue digits]? := by
  have hall : digits.all Char.isDigit = true := List.all_eq_true.2 h
  rw [parameter?, hall, Bool.true_and, List.getElem?_take]
  simp only [decide_eq_true_eq]

/-- One segment in front of a pattern: what is put in its place is not looked at again. -/
theorem substituteChars_segment (segment : Segment) (rest : List Char) :
    substituteChars parameters (segment.written.toList ++ rest) =
      (segment.shown (parameters.take (Nat.pow 2 64))).toList ++
        substituteChars parameters rest := by
  cases segment with
  | literal text hbrace => exact substituteChars_literal hbrace rest
  | placeholder before digits after hbefore hdigits hdigit hafter =>
    have hne : digits.toList ≠ [] := fun hnil => hdigits (String.toList_eq_nil_iff.1 hnil)
    have hfound := placeholder?_written hbefore hne hdigit hafter rest
    have hpattern : (Segment.placeholder before digits after hbefore hdigits hdigit
        hafter).written.toList ++ rest =
          '\x7b' :: (before.toList ++ (digits.toList ++ (after.toList ++ '\x7d' :: rest))) := by
      simp [Segment.written]
    rw [hpattern, substituteChars_of_some hfound, parameter?_of_isDigit hdigit, Segment.shown]
    cases (parameters.take (Nat.pow 2 64))[decimalValue digits.toList]? with
    | some parameter => rfl
    | none => simp [Segment.written]

theorem substituteChars_nil : substituteChars parameters [] = [] := by
  rw [substituteChars]
  rfl

/-- **Substitution is a single pass.** Of a pattern that consists of segments, each literal stays,
each placeholder that gives the number of a parameter becomes this parameter as it is, and all other
placeholders stay as they are written. Numbers are read in sixty-four bits, which can count all the
parameters that there is room for; of more of them only the first could be named. -/
theorem substitute_segments (segments : List Segment) (parameters : List String) :
    substitute (String.join (segments.map Segment.written)) parameters =
        String.join (segments.map (Segment.shown (parameters.take (Nat.pow 2 64)))) ∧
      (parameters.length ≤ Nat.pow 2 64 →
        substitute (String.join (segments.map Segment.written)) parameters =
          String.join (segments.map (Segment.shown parameters))) := by
  have hpass : substitute (String.join (segments.map Segment.written)) parameters =
      String.join (segments.map (Segment.shown (parameters.take (Nat.pow 2 64)))) := by
    rw [← String.toList_inj, substitute, String.toList_ofList]
    induction segments with
    | nil => exact substituteChars_nil
    | cons segment segments ih =>
      rw [List.map_cons, List.map_cons, String.join_cons, String.join_cons, String.toList_append,
        String.toList_append, substituteChars_segment, ih]
  refine ⟨hpass, fun hroom => ?_⟩
  rw [hpass, List.take_of_length_le hroom]

/-- The pattern `{1}, {007}{ 0\n}{18446744073709551616}}`. -/
def sampleSegments : List Segment :=
  have hnone : ∀ c ∈ "".toList, Text.isBlank c = true := List.all_eq_true.1 rfl
  [.placeholder "" "1" "" hnone (by decide) (List.all_eq_true.1 rfl) hnone,
    .literal ", " (by decide),
    .placeholder "" "007" "" hnone (by decide) (List.all_eq_true.1 rfl) hnone,
    .placeholder " " "0" "\n" (List.all_eq_true.1 rfl) (by decide) (List.all_eq_true.1 rfl)
      (List.all_eq_true.1 rfl),
    .placeholder "" "18446744073709551616" "" hnone (by decide) (List.all_eq_true.1 rfl) hnone,
    .literal "\x7d" (by decide)]

/-- Parameters that look like placeholders come out as they are; neither a number without a
parameter nor one that is too large is replaced. -/
theorem substitute_segments_sample :
    substitute (String.join (sampleSegments.map Segment.written)) ["\x7b1\x7d", "\x7b0\x7d"] =
      "\x7b0\x7d, \x7b007\x7d\x7b1\x7d\x7b18446744073709551616\x7d\x7d" := by
  rw [(substitute_segments sampleSegments ["\x7b1\x7d", "\x7b0\x7d"]).2 (by decide)]
  decide +kernel

end Extension

end Stencil
