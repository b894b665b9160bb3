import Mathlib.Data.List.Basic
import Stencil.Bytes.Utf8

/-!
# Decoding is the inverse of encoding

What stands at the front of bytes is a character just if the bytes begin with the encoding of this
character, and it is incomplete where they are the beginning of one. So decoding splits every text
that is given in pieces between characters, and holds back the bytes of the one that is cut.

## Main definitions

* `Bytes.encode`: the bytes of a text
* `Bytes.frontAfter`: the front of bytes of which some have been read
* `Bytes.Fronts`: how bytes are recognised as a character
* `Bytes.Cut`: bytes that are held back

## Main results

* `Bytes.fronts_of_encode`, `Bytes.encode_of_front`: the front of bytes and encoded characters
* `Bytes.eq_of_decodeFrom`: what is decoded and what is left over make up the bytes
* `Bytes.exists_decodeFrom`: the beginning of an encoded text is decoded
-/

namespace Stencil.Bytes

/-- The bytes of a text. -/
def encode (text : List Char) : List UInt8 :=
  text.flatMap String.utf8EncodeChar

@[simp] theorem encode_nil : encode [] = [] := rfl

@[simp] theorem encode_cons (c : Char) (text : List Char) :
    encode (c :: text) = String.utf8EncodeChar c ++ encode text := rfl

@[simp] theorem encode_append (first second : List Char) :
    encode (first ++ second) = encode first ++ encode second :=
  List.flatMap_append

/-! ### The encoding of a code -/

section Codes

variable {n : Nat}

theorem toNat_byte (h : n < 256) : (UInt8.ofNat n).toNat = n := by
  rw [UInt8.toNat_ofNat']
  exact Nat.mod_eq_of_lt h

theorem toNat_ofNat_of_isValidChar (h : n.isValidChar) : (Char.ofNat n).val.toNat = n := by
  rw [Char.ofNat, dif_pos h]
  rfl

theorem utf8EncodeChar_one (h : n < 0x80) :
    String.utf8EncodeChar (Char.ofNat n) = [.ofNat n] := by
  have hn : (Char.ofNat n).val.toNat = n := toNat_ofNat_of_isValidChar (.inl (by omega))
  simp only [String.utf8EncodeChar, hn]
  rw [if_pos (by omega)]

theorem utf8EncodeChar_two (h : 0x80 ≤ n) (h' : n < 0x800) :
    String.utf8EncodeChar (Char.ofNat n) = [.ofNat (n / 64 + 0xC0), .ofNat (n % 64 + 0x80)] := by
  have hn : (Char.ofNat n).val.toNat = n := toNat_ofNat_of_isValidChar (.inl (by omega))
  simp only [String.utf8EncodeChar, hn]
  rw [if_neg (by omega), if_pos (by omega), Nat.mod_eq_of_lt (by omega : n / 64 < 32)]

theorem utf8EncodeChar_three (h : 0x800 ≤ n) (h' : n < 0x10000) (hvalid : n.isValidChar) :
    String.utf8EncodeChar (Char.ofNat n) =
      [.ofNat (n / 4096 + 0xE0), .ofNat (n / 64 % 64 + 0x80), .ofNat (n % 64 + 0x80)] := by
  have hn : (Char.ofNat n).val.toNat = n := toNat_ofNat_of_isValidChar hvalid
  simp only [String.utf8EncodeChar, hn]
  rw [if_neg (by omega), if_neg (by omega), if_pos (by omega),
    Nat.mod_eq_of_lt (by omega : n / 4096 < 16)]

theorem utf8EncodeChar_four (h : 0x10000 ≤ n) (h' : n < 0x110000) :
    String.utf8EncodeChar (Char.ofNat n) =
      [.ofNat (n / 262144 + 0xF0), .ofNat (n / 4096 % 64 + 0x80), .ofNat (n / 64 % 64 + 0x80),
        .ofNat (n % 64 + 0x80)] := by
  have hn : (Char.ofNat n).val.toNat = n := toNat_ofNat_of_isValidChar (.inr ⟨by omega, h'⟩)
  simp only [String.utf8EncodeChar, hn]
  rw [if_neg (by omega), if_neg (by omega), if_neg (by omega),
    Nat.mod_eq_of_lt (by omega : n / 262144 < 8)]

end Codes

/-! ### The front of bytes by its first byte -/

/-- A byte is in bounds. -/
def Within (bounds : UInt8 × UInt8) (b : UInt8) : Prop :=
  bounds.1.toNat ≤ b.toNat ∧ b.toNat ≤ bounds.2.toNat

theorem within_iff {bounds : UInt8 × UInt8} {b : UInt8} :
    (bounds.1 ≤ b && b ≤ bounds.2) = true ↔ Within bounds b := by
  rw [Bool.and_eq_true, decide_eq_true_eq, decide_eq_true_eq]
  rfl

/-- The code when a further byte has been read. -/
def addPayload (code : Nat) (b : UInt8) : Nat :=
  code * 64 + payload b

/-- The front of bytes of which `read` have been read and give `code`. There are bounds for each
byte that is still to come. -/
def frontAfter (code read : Nat) : List (UInt8 × UInt8) → List UInt8 → Front
  | [], _ => .char (Char.ofNat code) read
  | _ :: _, [] => .incomplete
  | bounds :: more, b :: rest =>
    if bounds.1 ≤ b && b ≤ bounds.2 then frontAfter (addPayload code b) (read + 1) more rest
    else .invalid read

section FrontAfter

variable {code read : Nat} {bounds : List (UInt8 × UInt8)} {rest tail : List UInt8}

theorem frontAfter_append (h : List.Forall₂ Within bounds tail) (rest : List UInt8) :
    frontAfter code read bounds (tail ++ rest) =
      .char (Char.ofNat (tail.foldl addPayload code)) (read + tail.length) := by
  induction h generalizing code read with
  | nil => rfl
  | cons hb _ ih =>
    rw [List.cons_append, frontAfter, if_pos (within_iff.2 hb), ih, List.foldl_cons,
      List.length_cons, Nat.add_right_comm, Nat.add_assoc]

theorem frontAfter_part (h : List.Forall₂ Within bounds tail) {part more : List UInt8}
    (hpart : part ++ more = tail) (hmore : more ≠ []) :
    frontAfter code read bounds part = .incomplete := by
  induction h generalizing code read part with
  | nil => exact absurd (List.append_eq_nil_iff.1 hpart).2 hmore
  | cons hb _ ih =>
    cases part with
    | nil => rfl
    | cons b part =>
      obtain ⟨rfl, hrest⟩ := List.cons.inj hpart
      rw [frontAfter, if_pos (within_iff.2 hb), ih hrest]

theorem exists_of_frontAfter {c : Char} {width : Nat}
    (h : frontAfter code read bounds rest = .char c width) :
    ∃ tail more, rest = tail ++ more ∧ List.Forall₂ Within bounds tail ∧
      c = Char.ofNat (tail.foldl addPayload code) ∧ width = read + tail.length := by
  fun_induction frontAfter code read bounds rest with
  | case1 code read rest =>
    cases h
    exact ⟨[], rest, rfl, .nil, rfl, rfl⟩
  | case2 => cases h
  | case3 code read bounds more b rest hb ih =>
    obtain ⟨tail, others, rfl, hall, rfl, rfl⟩ := ih h
    exact ⟨b :: tail, others, rfl, .cons (within_iff.1 hb) hall, rfl,
      Nat.succ_add_eq_add_succ read tail.length⟩
  | case4 => cases h

theorem length_lt_of_frontAfter (h : frontAfter code read bounds rest = .incomplete) :
    rest.length < bounds.length := by
  fun_induction frontAfter code read bounds rest with
  | case1 => cases h
  | case2 => exact Nat.succ_pos _
  | case3 code read bounds more b rest hb ih => exact Nat.succ_lt_succ (ih h)
  | case4 => cases h

end FrontAfter

section First

variable {b : UInt8} (rest : List UInt8)

theorem front_one (h : b.toNat < 0x80) : front b rest = .char (Char.ofNat b.toNat) 1 := by
  rw [front, if_pos (UInt8.lt_iff_toNat_lt.2 h)]

theorem front_two (h : 0xC2 ≤ b.toNat) (h' : b.toNat < 0xE0) :
    front b rest = frontAfter (b.toNat % 32) 1 [(0x80, 0xBF)] rest := by
  simp only [front, UInt8.lt_iff_toNat_lt, UInt8.reduceToNat]
  rw [if_neg (by omega), if_neg (by omega), if_pos (by omega)]
  cases rest <;> rfl

theorem frontOfThree_eq (low high : UInt8) :
    frontOfThree b low high rest =
      frontAfter (b.toNat % 16) 1 [(low, high), (0x80, 0xBF)] rest := by
  rcases rest with _ | ⟨b₁, _ | ⟨b₂, rest⟩⟩ <;> rfl

theorem front_three (h : 0xE0 ≤ b.toNat) (h' : b.toNat < 0xF0) :
    front b rest = frontAfter (b.toNat % 16) 1 [(if b.toNat = 0xE0 then 0xA0 else 0x80,
      if b.toNat = 0xED then 0x9F else 0xBF), (0x80, 0xBF)] rest := by
  simp only [front, UInt8.lt_iff_toNat_lt, ← UInt8.toNat_inj, UInt8.reduceToNat, frontOfThree_eq]
  rw [if_neg (by omega), if_neg (by omega), if_neg (by omega)]
  by_cases hfirst : b.toNat = 0xE0
  · rw [if_pos hfirst, if_pos hfirst, if_neg (by omega)]
  · rw [if_neg hfirst, if_neg hfirst, if_pos h']
    split <;> rfl

theorem frontOfFour_eq (low high : UInt8) :
    frontOfFour b low high rest =
      frontAfter (b.toNat % 8) 1 [(low, high), (0x80, 0xBF), (0x80, 0xBF)] rest := by
  rcases rest with _ | ⟨b₁, _ | ⟨b₂, _ | ⟨b₃, rest⟩⟩⟩ <;> rfl

theorem front_four (h : 0xF0 ≤ b.toNat) (h' : b.toNat < 0xF5) :
    front b rest = frontAfter (b.toNat % 8) 1 [(if b.toNat = 0xF0 then 0x90 else 0x80,
      if b.toNat = 0xF4 then 0x8F else 0xBF), (0x80, 0xBF), (0x80, 0xBF)] rest := by
  simp only [front, UInt8.lt_iff_toNat_lt, ← UInt8.toNat_inj, UInt8.reduceToNat, frontOfFour_eq]
  rw [if_neg (by omega), if_neg (by omega), if_neg (by omega), if_neg (by omega),
    if_neg (by omega), if_neg (by omega)]
  by_cases hfirst : b.toNat = 0xF0
  · rw [if_pos hfirst, if_pos hfirst, if_neg (by omega)]
  · rw [if_neg hfirst, if_neg hfirst]
    by_cases hlast : b.toNat = 0xF4
    · rw [if_neg (by omega), if_pos hlast, if_pos hlast]
    · rw [if_pos (by omega), if_neg hlast]

theorem front_invalid (h : 0x80 ≤ b.toNat ∧ b.toNat < 0xC2 ∨ 0xF5 ≤ b.toNat) :
    front b rest = .invalid 1 := by
  simp only [front, UInt8.lt_iff_toNat_lt, ← UInt8.toNat_inj, UInt8.reduceToNat]
  rw [if_neg (by omega)]
  rcases h with h | h
  · rw [if_pos (by omega)]
  · rw [if_neg (by omega), if_neg (by omega), if_neg (by omega), if_neg (by omega),
      if_neg (by omega), if_neg (by omega), if_neg (by omega), if_neg (by omega)]

end First

theorem within_ofNat {n : Nat} (h : n < 64) : Within (0x80, 0xBF) (.ofNat (n + 0x80)) := by
  rw [Within, toNat_byte (by omega)]
  simp only [UInt8.reduceToNat]
  omega

theorem payload_ofNat {n : Nat} (h : n < 64) : payload (.ofNat (n + 0x80)) = n := by
  rw [payload, toNat_byte (by omega)]
  omega

/-! ### Encoded characters at the front -/

/-- Bytes that begin with `b :: tail` have the character `c` at their front, and a part of
`b :: tail` is incomplete. -/
structure Fronts (c : Char) (b : UInt8) (tail : List UInt8) : Prop where
  char : ∀ rest, front b (tail ++ rest) = .char c (tail.length + 1)
  incomplete : ∀ part more, part ++ more = tail → more ≠ [] → front b part = .incomplete

section Widths

variable {n : Nat}

theorem fronts_one (h : n < 0x80) : Fronts (Char.ofNat n) (.ofNat n) [] where
  char rest := by
    have hb : (UInt8.ofNat n).toNat = n := toNat_byte (by omega)
    rw [front_one _ (by omega), hb]
    rfl
  incomplete part more hpart hmore := absurd (List.append_eq_nil_iff.1 hpart).2 hmore

theorem Fronts.of_frontAfter {b : UInt8} {tail : List UInt8} {bounds : List (UInt8 × UInt8)}
    {code : Nat} (hfront : ∀ rest, front b rest = frontAfter code 1 bounds rest)
    (hbounds : List.Forall₂ Within bounds tail) (hcode : tail.foldl addPayload code = n) :
    Fronts (Char.ofNat n) b tail where
  char rest := by rw [hfront, frontAfter_append hbounds, hcode, Nat.add_comm]
  incomplete part more hpart hmore := by rw [hfront, frontAfter_part hbounds hpart hmore]

theorem fronts_two (h : 0x80 ≤ n) (h' : n < 0x800) :
    Fronts (Char.ofNat n) (.ofNat (n / 64 + 0xC0)) [.ofNat (n % 64 + 0x80)] := by
  have hb : (UInt8.ofNat (n / 64 + 0xC0)).toNat = n / 64 + 0xC0 :=
    toNat_byte (by omega)
  have hlow : n % 64 < 64 := Nat.mod_lt _ (by omega)
  refine .of_frontAfter (fun rest => front_two rest (by omega) (by omega))
    (.cons (within_ofNat hlow) .nil) ?_
  simp only [List.foldl_cons, List.foldl_nil, addPayload, hb, payload_ofNat hlow]
  omega

/-- The second byte of three is in its bounds: the code needs three bytes and is no surrogate. -/
theorem second_of_three (h : 0x800 ≤ n) (h' : n < 0x10000) (hvalid : n.isValidChar) :
    Within (if n / 4096 + 0xE0 = 0xE0 then 0xA0 else 0x80,
      if n / 4096 + 0xE0 = 0xED then 0x9F else 0xBF) (.ofNat (n / 64 % 64 + 0x80)) := by
  rw [Within, toNat_byte (by omega)]
  rcases hvalid with hvalid | hvalid <;> constructor <;> dsimp only <;> split <;>
    simp only [UInt8.reduceToNat] <;> omega

theorem fronts_three (h : 0x800 ≤ n) (h' : n < 0x10000) (hvalid : n.isValidChar) :
    Fronts (Char.ofNat n) (.ofNat (n / 4096 + 0xE0))
      [.ofNat (n / 64 % 64 + 0x80), .ofNat (n % 64 + 0x80)] := by
  have hb : (UInt8.ofNat (n / 4096 + 0xE0)).toNat = n / 4096 + 0xE0 := toNat_byte (by omega)
  have hmiddle : n / 64 % 64 < 64 := Nat.mod_lt _ (by omega)
  have hlow : n % 64 < 64 := Nat.mod_lt _ (by omega)
  refine .of_frontAfter (fun rest => front_three rest (by omega) (by omega))
    (.cons ?_ (.cons (within_ofNat hlow) .nil)) ?_
  · rw [hb]
    exact second_of_three h h' hvalid
  · simp only [List.foldl_cons, List.foldl_nil, addPayload, hb, payload_ofNat hmiddle,
      payload_ofNat hlow]
    omega

/-- The second byte of four is in its bounds: the code needs four bytes and is that of a
character. -/
theorem second_of_four (h : 0x10000 ≤ n) (h' : n < 0x110000) :
    Within (if n / 262144 + 0xF0 = 0xF0 then 0x90 else 0x80,
      if n / 262144 + 0xF0 = 0xF4 then 0x8F else 0xBF) (.ofNat (n / 4096 % 64 + 0x80)) := by
  rw [Within, toNat_byte (by omega)]
  constructor <;> dsimp only <;> split <;> simp only [UInt8.reduceToNat] <;> omega

theorem fronts_four (h : 0x10000 ≤ n) (h' : n < 0x110000) :
    Fronts (Char.ofNat n) (.ofNat (n / 262144 + 0xF0))
      [.ofNat (n / 4096 % 64 + 0x80), .ofNat (n / 64 % 64 + 0x80), .ofNat (n % 64 + 0x80)] := by
  have hb : (UInt8.ofNat (n / 262144 + 0xF0)).toNat = n / 262144 + 0xF0 := toNat_byte (by omega)
  have hhigh : n / 4096 % 64 < 64 := Nat.mod_lt _ (by omega)
  have hmiddle : n / 64 % 64 < 64 := Nat.mod_lt _ (by omega)
  have hlow : n % 64 < 64 := Nat.mod_lt _ (by omega)
  refine .of_frontAfter (fun rest => front_four rest (by omega) (by omega))
    (.cons ?_ (.cons (within_ofNat hmiddle) (.cons (within_ofNat hlow) .nil))) ?_
  · rw [hb]
    exact second_of_four h h'
  · simp only [List.foldl_cons, List.foldl_nil, addPayload, hb, payload_ofNat hhigh,
      payload_ofNat hmiddle, payload_ofNat hlow]
    omega

end Widths

/-- Encoded characters are found at the front. -/
theorem fronts_of_encode {c : Char} {b : UInt8} {tail : List UInt8}
    (h : String.utf8EncodeChar c = b :: tail) : Fronts c b tail := by
  obtain ⟨n, hvalid, rfl⟩ : ∃ n : Nat, n.isValidChar ∧ c = Char.ofNat n :=
    ⟨c.toNat, c.valid, (Char.ofNat_toNat c).symm⟩
  have hbound : n < 0x110000 := by
    rcases hvalid with hvalid | hvalid <;> omega
  -- The code says how many bytes are written.
  by_cases hone : n < 0x80
  · rw [utf8EncodeChar_one hone] at h
    cases h
    exact fronts_one hone
  by_cases htwo : n < 0x800
  · rw [utf8EncodeChar_two (by omega) htwo] at h
    cases h
    exact fronts_two (by omega) htwo
  by_cases hthree : n < 0x10000
  · rw [utf8EncodeChar_three (by omega) hthree hvalid] at h
    cases h
    exact fronts_three (by omega) hthree hvalid
  · rw [utf8EncodeChar_four (by omega) hbound] at h
    cases h
    exact fronts_four (by omega) hbound

/-! ### Characters at the front are encoded -/

section Sound

variable {c : Char} {b : UInt8} {rest tail : List UInt8} {width : Nat}

theorem byte_eq {n : Nat} (h : b.toNat = n) : UInt8.ofNat n = b := by
  rw [← h, UInt8.ofNat_toNat]

theorem encode_of_two (hb : 0xC2 ≤ b.toNat) (hb' : b.toNat < 0xE0)
    (h : List.Forall₂ Within [(0x80, 0xBF)] tail) :
    String.utf8EncodeChar (Char.ofNat (tail.foldl addPayload (b.toNat % 32))) = b :: tail := by
  obtain _ | @⟨_, b₁, _, _, hb₁, ⟨⟩⟩ := h
  simp only [Within, UInt8.reduceToNat] at hb₁
  simp only [List.foldl_cons, List.foldl_nil, addPayload, payload]
  rw [utf8EncodeChar_two (by omega) (by omega), byte_eq (b := b) (by omega),
    byte_eq (b := b₁) (by omega)]

theorem encode_of_three {low high : UInt8} (hb : 0xE0 ≤ b.toNat) (hb' : b.toNat < 0xF0)
    (hlow : 0x80 ≤ low.toNat ∧ (b.toNat = 0xE0 → 0xA0 ≤ low.toNat))
    (hhigh : high.toNat ≤ 0xBF ∧ (b.toNat = 0xED → high.toNat ≤ 0x9F))
    (h : List.Forall₂ Within [(low, high), (0x80, 0xBF)] tail) :
    String.utf8EncodeChar (Char.ofNat (tail.foldl addPayload (b.toNat % 16))) = b :: tail := by
  obtain _ | @⟨_, b₁, _, _, hb₁, _ | @⟨_, b₂, _, _, hb₂, ⟨⟩⟩⟩ := h
  simp only [Within, UInt8.reduceToNat] at hb₁ hb₂
  simp only [List.foldl_cons, List.foldl_nil, addPayload, payload]
  -- The bounds of the second byte leave no code of two bytes and no surrogate.
  rw [utf8EncodeChar_three (by omega) (by omega) (by rw [Nat.isValidChar]; omega),
    byte_eq (b := b) (by omega), byte_eq (b := b₁) (by omega), byte_eq (b := b₂) (by omega)]

theorem encode_of_four {low high : UInt8} (hb : 0xF0 ≤ b.toNat) (hb' : b.toNat < 0xF5)
    (hlow : 0x80 ≤ low.toNat ∧ (b.toNat = 0xF0 → 0x90 ≤ low.toNat))
    (hhigh : high.toNat ≤ 0xBF ∧ (b.toNat = 0xF4 → high.toNat ≤ 0x8F))
    (h : List.Forall₂ Within [(low, high), (0x80, 0xBF), (0x80, 0xBF)] tail) :
    String.utf8EncodeChar (Char.ofNat (tail.foldl addPayload (b.toNat % 8))) = b :: tail := by
  obtain _ | @⟨_, b₁, _, _, hb₁, _ | @⟨_, b₂, _, _, hb₂, _ | @⟨_, b₃, _, _, hb₃, ⟨⟩⟩⟩⟩ := h
  simp only [Within, UInt8.reduceToNat] at hb₁ hb₂ hb₃
  simp only [List.foldl_cons, List.foldl_nil, addPayload, payload]
  -- They leave no code of three bytes and none beyond the last character.
  rw [utf8EncodeChar_four (by omega) (by omega), byte_eq (b := b) (by omega),
    byte_eq (b := b₁) (by omega), byte_eq (b := b₂) (by omega), byte_eq (b := b₃) (by omega)]

/-- A character at the front of bytes is encoded there. -/
theorem encode_of_front (h : front b rest = .char c width) :
    ∃ tail more, rest = tail ++ more ∧ width = tail.length + 1 ∧
      String.utf8EncodeChar c = b :: tail := by
  -- The first byte says how many bytes are read.
  by_cases hone : b.toNat < 0x80
  · rw [front_one rest hone] at h
    obtain ⟨rfl, rfl⟩ := Front.char.inj h
    refine ⟨[], rest, rfl, rfl, ?_⟩
    rw [utf8EncodeChar_one hone, UInt8.ofNat_toNat]
  by_cases hinvalid : b.toNat < 0xC2 ∨ 0xF5 ≤ b.toNat
  · rw [front_invalid rest (by omega)] at h
    cases h
  by_cases htwo : b.toNat < 0xE0
  · rw [front_two rest (by omega) htwo] at h
    obtain ⟨tail, more, rfl, hbounds, rfl, rfl⟩ := exists_of_frontAfter h
    exact ⟨tail, more, rfl, Nat.add_comm 1 _, encode_of_two (by omega) htwo hbounds⟩
  by_cases hthree : b.toNat < 0xF0
  · rw [front_three rest (by omega) hthree] at h
    obtain ⟨tail, more, rfl, hbounds, rfl, rfl⟩ := exists_of_frontAfter h
    refine ⟨tail, more, rfl, Nat.add_comm 1 _, encode_of_three (by omega) hthree ?_ ?_ hbounds⟩ <;>
      constructor <;> split <;> simp only [UInt8.reduceToNat] <;> omega
  · rw [front_four rest (by omega) (by omega)] at h
    obtain ⟨tail, more, rfl, hbounds, rfl, rfl⟩ := exists_of_frontAfter h
    refine ⟨tail, more, rfl, Nat.add_comm 1 _, ?_⟩
    refine encode_of_four (by omega) (by omega) ?_ ?_ hbounds <;>
      constructor <;> split <;> simp only [UInt8.reduceToNat] <;> omega

end Sound

/-! ### Decoding -/

/-- No character is complete at the front of bytes that are held back. -/
def Cut (held : List UInt8) : Prop :=
  ∀ b rest, held = b :: rest → front b rest = .incomplete

theorem cut_nil : Cut [] :=
  nofun

/-- Whole characters are never held back. -/
theorem Cut.eq_nil {held : List UInt8} {text : List Char} (hcut : Cut held)
    (h : held = encode text) : text = [] := by
  cases text with
  | nil => rfl
  | cons c text =>
    -- The first character would be complete at the front.
    obtain ⟨b, tail, hc⟩ := List.exists_cons_of_ne_nil (String.utf8EncodeChar_ne_nil (c := c))
    rw [encode_cons, hc, List.cons_append] at h
    have hfront := (fronts_of_encode hc).char (encode text)
    rw [hcut b _ h] at hfront
    cases hfront

section Decode

variable {index : Nat} {bytes left : List UInt8} {text : List Char}

/-- What is decoded and what is left over make up the bytes. -/
theorem eq_of_decodeFrom (h : decodeFrom index bytes = .ok (text, left)) :
    bytes = encode text ++ left := by
  fun_induction decodeFrom index bytes generalizing text with
  | case1 => cases h; rfl
  | case2 => cases h
  | case3 => cases h; rfl
  | case4 => cases h
  | case5 index b rest c width hfront cs left' hrest ih =>
    cases h
    obtain ⟨tail, more, rfl, rfl, hc⟩ := encode_of_front hfront
    rw [Nat.add_sub_cancel, List.drop_left] at ih
    rw [Nat.add_sub_cancel, List.drop_left] at hrest
    rw [encode_cons, hc, List.append_assoc, ← ih hrest, List.cons_append]

theorem cut_of_decodeFrom (h : decodeFrom index bytes = .ok (text, left)) : Cut left := by
  fun_induction decodeFrom index bytes generalizing text with
  | case1 => cases h; exact cut_nil
  | case2 => cases h
  | case3 index b rest hfront =>
    cases h
    intro b' rest' heq
    cases heq
    exact hfront
  | case4 => cases h
  | case5 index b rest c width hfront cs left' hrest ih =>
    cases h
    exact ih hrest

variable (index) in
/-- The beginning of an encoded text is decoded, up to a character that is cut. -/
theorem exists_decodeFrom {more : List UInt8} (h : bytes ++ more = encode text) :
    ∃ first second left, decodeFrom index bytes = .ok (first, left) ∧ text = first ++ second ∧
      left ++ more = encode second := by
  induction text generalizing index bytes with
  | nil =>
    obtain ⟨rfl, rfl⟩ := List.append_eq_nil_iff.1 h
    exact ⟨[], [], [], by rw [decodeFrom], rfl, rfl⟩
  | cons c text ih =>
    cases bytes with
    | nil => exact ⟨[], c :: text, [], by rw [decodeFrom], rfl, h⟩
    | cons b bytes =>
      obtain ⟨b', tail, hc⟩ := List.exists_cons_of_ne_nil (String.utf8EncodeChar_ne_nil (c := c))
      rw [encode_cons, hc, List.cons_append, List.cons_append] at h
      obtain ⟨rfl, heq⟩ := List.cons.inj h
      have hfronts := fronts_of_encode hc
      -- The bytes end within the character or after it.
      by_cases hcut : ∃ rest, tail = bytes ++ rest ∧ rest ≠ []
      · obtain ⟨rest, htail, hrest⟩ := hcut
        refine ⟨[], c :: text, b :: bytes, ?_, rfl, ?_⟩
        · rw [decodeFrom, hfronts.incomplete bytes rest htail.symm hrest]
        · rw [encode_cons, hc, List.cons_append, List.cons_append, heq]
      · obtain ⟨rest, rfl, hrest⟩ : ∃ rest, bytes = tail ++ rest ∧ rest ++ more = encode text := by
          rcases List.append_eq_append_iff.1 heq with ⟨rest, htail, hmore⟩ | ⟨rest, hbytes, hmore⟩
          · cases rest with
            | nil => exact ⟨[], by rw [htail, List.append_nil, List.append_nil], hmore⟩
            | cons b' rest => exact absurd ⟨b' :: rest, htail, List.cons_ne_nil b' rest⟩ hcut
          · exact ⟨rest, hbytes, hmore.symm⟩
        obtain ⟨first, second, left, hdecode, rfl, hleft⟩ := ih (index + (tail.length + 1)) hrest
        refine ⟨c :: first, second, left, ?_, rfl, hleft⟩
        rw [decodeFrom, hfronts.char rest]
        simp only [Nat.add_sub_cancel, List.drop_left, hdecode]

end Decode

end Stencil.Bytes
