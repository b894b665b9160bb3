import Stencil.Failure

/-!
# Decoding UTF-8

Bytes are decoded as far as they make up characters. Bytes at the end that further bytes could
complete are left over; bytes that none can complete are a fault.

Bytes come in pieces. The text of each piece is handed on as soon as it is there; the bytes of a
character that the end of a piece cuts are held back until the rest of them come.

## Main definitions

* `decode`: the characters of bytes
* `texts`: the texts of pieces
-/

namespace Stencil.Bytes

/-- What stands at the front of bytes. -/
inductive Front where
  /-- A character of `width` bytes. -/
  | char (c : Char) (width : Nat)
  /-- The beginning of a character. -/
  | incomplete
  /-- Bytes that cannot be completed: how many of them belong together. -/
  | invalid (length : Nat)
  deriving DecidableEq, Repr

/-- Whether a byte can follow the first two bytes of a character. -/
def isContinuation (b : UInt8) : Bool :=
  0x80 ≤ b && b ≤ 0xBF

/-- The six bits that a byte after the first adds to a code. -/
def payload (b : UInt8) : Nat :=
  b.toNat % 64

/-- The front of bytes whose first byte `b` announces two bytes. -/
def frontOfTwo (b : UInt8) : List UInt8 → Front
  | [] => .incomplete
  | b₁ :: _ =>
    if isContinuation b₁ then .char (Char.ofNat (b.toNat % 32 * 64 + payload b₁)) 2 else .invalid 1

/-- The front of bytes whose first byte `b` announces three bytes, the second of them from `low` to
`high`. -/
def frontOfThree (b low high : UInt8) : List UInt8 → Front
  | [] => .incomplete
  | b₁ :: rest =>
    if low ≤ b₁ && b₁ ≤ high then
      match rest with
      | [] => .incomplete
      | b₂ :: _ =>
        if isContinuation b₂ then
          .char (Char.ofNat ((b.toNat % 16 * 64 + payload b₁) * 64 + payload b₂)) 3
        else .invalid 2
    else .invalid 1

/-- The front of bytes whose first byte `b` announces four bytes, the second of them from `low` to
`high`. -/
def frontOfFour (b low high : UInt8) : List UInt8 → Front
  | [] => .incomplete
  | b₁ :: rest =>
    if low ≤ b₁ && b₁ ≤ high then
      match rest with
      | [] => .incomplete
      | b₂ :: rest =>
        if isContinuation b₂ then
          match rest with
          | [] => .incomplete
          | b₃ :: _ =>
            if isContinuation b₃ then
              .char (Char.ofNat
                (((b.toNat % 8 * 64 + payload b₁) * 64 + payload b₂) * 64 + payload b₃)) 4
            else .invalid 3
        else .invalid 2
    else .invalid 1

/-- What stands at the front of `b :: rest`. Codes of surrogates, codes beyond the last character
and codes written with more bytes than needed are invalid. -/
def front (b : UInt8) (rest : List UInt8) : Front :=
  if b < 0x80 then .char (Char.ofNat b.toNat) 1
  else if b < 0xC2 then .invalid 1
  else if b < 0xE0 then frontOfTwo b rest
  else if b = 0xE0 then frontOfThree b 0xA0 0xBF rest
  else if b = 0xED then frontOfThree b 0x80 0x9F rest
  else if b < 0xF0 then frontOfThree b 0x80 0xBF rest
  else if b = 0xF0 then frontOfFour b 0x90 0xBF rest
  else if b < 0xF4 then frontOfFour b 0x80 0xBF rest
  else if b = 0xF4 then frontOfFour b 0x80 0x8F rest
  else .invalid 1

/-- The characters of `bytes`, before which `index` bytes stand, and the bytes left over. -/
def decodeFrom (index : Nat) (bytes : List UInt8) :
    Except EncodingFault (List Char × List UInt8) :=
  match bytes with
  | [] => .ok ([], [])
  | b :: rest =>
    match front b rest with
    | .invalid length => .error (.invalid length index)
    | .incomplete => .ok ([], b :: rest)
    | .char c width =>
      match decodeFrom (index + width) (rest.drop (width - 1)) with
      | .error e => .error e
      | .ok (cs, left) => .ok (c :: cs, left)
termination_by bytes.length

/-- The characters of `bytes` and the bytes left over at the end. -/
def decode (bytes : List UInt8) : Except EncodingFault (List Char × List UInt8) :=
  decodeFrom 0 bytes

/-! ### Reading in pieces -/

/-- The pieces of at most `size` bytes, where no piece is empty; a size of zero counts as one. -/
def pieces (size : Nat) (bytes : List UInt8) : List (List UInt8) :=
  match bytes with
  | [] => []
  | b :: rest => (b :: rest.take (size - 1)) :: pieces size (rest.drop (size - 1))
termination_by bytes.length

/-- The texts of pieces, before which the bytes `held` were held back. Pieces that complete no
character give no text. The texts before a failure are kept. -/
def textsAfter (held : List UInt8) : List (List UInt8) → List (List Char) × Except EncodingFault Unit
  | [] => ([], if held.isEmpty then .ok () else .error .truncated)
  | piece :: rest =>
    match decode (held ++ piece) with
    | .error e => ([], .error e)
    | .ok (text, held) =>
      let (texts, outcome) := textsAfter held rest
      (if text.isEmpty then texts else text :: texts, outcome)

/-- The texts of pieces. -/
def texts (pieces : List (List UInt8)) : List (List Char) × Except EncodingFault Unit :=
  textsAfter [] pieces

end Stencil.Bytes
