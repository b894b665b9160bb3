import Stencil.Proofs.Lexing
import Stencil.Proofs.WrittenNumbers

/-!
# Where written pieces end

Names, numbers and text literals have a variable length. A text literal ends with its quote. A name
and a number go on as long as they can, so they are told apart wherever something follows that does
not go on with them.

## Main definitions

* `continuesName`: the characters that go on a name
* `Breaks`: what ends names and numbers

## Main results

* `name_append_inj`, `Numeral.text_append_inj`, `Term.quote_append_inj`: the pieces are told apart
-/

namespace Stencil

variable {rest rest' : List Char}

/-! ### Names -/

/-- Pieces that go on as long as they can are told apart by what they are made of. -/
theorem append_inj_of_all {p : Char → Bool} {xs ys : List Char} (hxs : ∀ c ∈ xs, p c = true)
    (hys : ∀ c ∈ ys, p c = true) (hrest : rest.head?.any p = false)
    (hrest' : rest'.head?.any p = false) (h : xs ++ rest = ys ++ rest') :
    xs = ys ∧ rest = rest' := by
  have htake {xs rest : List Char} (hxs : ∀ c ∈ xs, p c = true)
      (hrest : rest.head?.any p = false) : (xs ++ rest).takeWhile p = xs := by
    rw [List.takeWhile_append_of_pos hxs]
    cases rest with
    | nil => exact List.append_nil xs
    | cons c rest =>
      rw [List.takeWhile_cons_of_neg (by simpa using hrest), List.append_nil]
  have hsame : xs = ys := by rw [← htake hxs hrest, h, htake hys hrest']
  subst hsame
  exact ⟨rfl, List.append_cancel_left h⟩

/-- Whether a character goes on a name where names are written. -/
def continuesName (c : Char) : Bool :=
  Text.isAlphanumeric c || c = '_' || c = ':'

theorem val_of_isDigit {c : Char} (h : c.isDigit = true) :
    48 ≤ c.val.toNat ∧ c.val.toNat ≤ 57 := by
  rw [Char.isDigit, Bool.and_eq_true, decide_eq_true_eq, decide_eq_true_eq] at h
  exact ⟨UInt32.le_iff_toNat_le.1 h.1, UInt32.le_iff_toNat_le.1 h.2⟩

theorem isAscii_of_isDigit {c : Char} (h : c.isDigit = true) : c.val < 0x80 := by
  have hval := val_of_isDigit h
  exact UInt32.lt_iff_toNat_lt.2 (by change c.val.toNat < 128; omega)

theorem continuesName_of_isDigit {c : Char} (h : c.isDigit = true) : continuesName c = true := by
  simp [continuesName, Text.isAlphanumeric, Text.isNumeric, isAscii_of_isDigit h, h]

/-- No digit begins a name. -/
theorem beginsName_of_isDigit {c : Char} (h : c.isDigit = true) : beginsName c = false := by
  have hval := val_of_isDigit h
  have hupper : c.isUpper = false := by
    refine Bool.eq_false_iff.2 fun hupper => ?_
    have hlow : 65 ≤ c.val.toNat := UInt32.le_iff_toNat_le.1 (of_decide_eq_true hupper).1
    omega
  have hlower : c.isLower = false := by
    refine Bool.eq_false_iff.2 fun hlower => ?_
    have hlow : 97 ≤ c.val.toNat :=
      UInt32.le_iff_toNat_le.1 (of_decide_eq_true (Bool.and_eq_true_iff.1 hlower).1)
    omega
  have halpha : c.isAlpha = false := Bool.or_eq_false_iff.2 ⟨hupper, hlower⟩
  have hunderscore : c ≠ '_' := by
    rintro rfl
    exact absurd h (by decide)
  simp [beginsName, Text.isAlphabetic, isAscii_of_isDigit h, halpha, hunderscore]

/-- A name, with the characters that it begins and goes on with. -/
theorem exists_of_isIdentifier {name : String} (h : isIdentifier name = true) :
    ∃ first more, name.toList = first :: more ∧ beginsName first = true ∧
      ∀ c ∈ more, continuesName c = true := by
  rw [isIdentifier] at h
  split at h
  · cases h
  · next first more hname =>
    rw [Bool.and_eq_true, List.all_eq_true] at h
    exact ⟨first, more, hname, h.1, h.2⟩

theorem continuesName_of_beginsName {c : Char} (h : beginsName c = true) :
    continuesName c = true := by
  rw [beginsName, Bool.or_eq_true] at h
  rcases h with h | h <;> simp [continuesName, Text.isAlphanumeric, h]

theorem continuesName_of_isIdentifier {name : String} (h : isIdentifier name = true) :
    ∀ c ∈ name.toList, continuesName c = true := by
  obtain ⟨first, more, hname, hfirst, hmore⟩ := exists_of_isIdentifier h
  rw [hname]
  exact List.forall_mem_cons.2 ⟨continuesName_of_beginsName hfirst, hmore⟩

/-- Names are told apart where they end. -/
theorem name_append_inj {name name' : String} (h : isIdentifier name = true)
    (h' : isIdentifier name' = true) (hrest : rest.head?.any continuesName = false)
    (hrest' : rest'.head?.any continuesName = false)
    (heq : name.toList ++ rest = name'.toList ++ rest') : name = name' ∧ rest = rest' := by
  obtain ⟨hname, hrest⟩ := append_inj_of_all (continuesName_of_isIdentifier h)
    (continuesName_of_isIdentifier h') hrest hrest' heq
  exact ⟨String.toList_injective hname, hrest⟩

/-! ### Text literals -/

/-- Text literals are told apart whatever follows. -/
theorem Term.quote_append_inj {value value' : String}
    (h : (quote value).toList ++ rest = (quote value').toList ++ rest') :
    value = value' ∧ rest = rest' := by
  have hread (value : String) (rest : List Char) :
      ∃ input, (quote value).toList ++ rest = '\'' :: input ∧
        ∃ body, textBody '\'' input = .ok body ∧ body.value = value.toList ∧ body.rest = rest := by
    refine ⟨_, ?_, exists_textBody value.toList rest⟩
    rw [toList_quote, List.cons_append, List.append_assoc, List.singleton_append]
  obtain ⟨input, hinput, body, hbody, hvalue, hrest⟩ := hread value rest
  obtain ⟨input', hinput', body', hbody', hvalue', hrest'⟩ := hread value' rest'
  rw [hinput, hinput'] at h
  obtain rfl := (List.cons.inj h).2
  rw [hbody] at hbody'
  obtain rfl := Except.ok.inj hbody'
  exact ⟨String.toList_injective (hvalue.symm.trans hvalue'), hrest.symm.trans hrest'⟩

/-! ### Numerals -/

/-- What ends a name and a number. -/
structure Breaks (rest : List Char) : Prop where
  name : rest.head?.any continuesName = false
  point : ∀ more, rest = '.' :: more → more.head?.any Char.isDigit = false

theorem Breaks.digit (h : Breaks rest) :
    rest.head?.any Char.isDigit = false := by
  cases rest with
  | nil => rfl
  | cons c rest =>
    refine Bool.eq_false_iff.2 fun hdigit => ?_
    exact absurd (continuesName_of_isDigit hdigit) (Bool.eq_false_iff.1 h.name)

namespace Numeral

theorem head?_afterPoint_append (digits : List Char) (hrest : Breaks rest) :
    (afterPoint digits ++ rest).head?.any Char.isDigit = false := by
  cases digits with
  | nil => exact hrest.digit
  | cons c digits => rfl

theorem afterPoint_append_inj {xs ys : List Char} (hxs : ∀ c ∈ xs, c.isDigit = true)
    (hys : ∀ c ∈ ys, c.isDigit = true) (hrest : Breaks rest) (hrest' : Breaks rest')
    (h : afterPoint xs ++ rest = afterPoint ys ++ rest') : xs = ys ∧ rest = rest' := by
  -- A point with a digit behind it does not end a numeral.
  cases xs with
  | nil =>
    cases ys with
    | nil => exact ⟨rfl, h⟩
    | cons c ys =>
      exact absurd (hys c List.mem_cons_self) (Bool.eq_false_iff.1 (hrest.point _ h))
  | cons c xs =>
    cases ys with
    | nil =>
      exact absurd (hxs c List.mem_cons_self) (Bool.eq_false_iff.1 (hrest'.point _ h.symm))
    | cons c' ys =>
      exact append_inj_of_all hxs hys hrest.digit hrest'.digit (List.cons.inj h).2

/-- Numerals are told apart where they end. -/
theorem text_append_inj {n n' : Numeral} (hrest : Breaks rest) (hrest' : Breaks rest')
    (h : n.text ++ rest = n'.text ++ rest') :
    n.text = n'.text ∧ rest = rest' := by
  rw [text, text, List.append_assoc, List.append_assoc] at h
  obtain ⟨hwhole, htail⟩ := append_inj_of_all n.isDigit_whole n'.isDigit_whole
    (head?_afterPoint_append _ hrest) (head?_afterPoint_append _ hrest') h
  obtain ⟨hfraction, hsame⟩ :=
    afterPoint_append_inj n.isDigit_fraction n'.isDigit_fraction hrest hrest' htail
  rw [text, text, hwhole, hfraction]
  exact ⟨rfl, hsame⟩

end Numeral

end Stencil
