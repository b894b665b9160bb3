import Stencil.Text.Ranges

/-!
# Characters and texts

The classes by which names, blanks and digits are recognised. ASCII characters are decided by
comparison, the others by tables. Texts are split and trimmed, and written between quotes on one
line, where what would not show is an escape.
-/

namespace Stencil.Text

/-! ### Classes of characters -/

/-- The characters of the Unicode property White_Space. -/
def isBlank (c : Char) : Bool :=
  if c.val < 0x80 then c = ' ' || ('\t' ≤ c && c ≤ '\r')
  else
    c.val = 0x85 || c.val = 0xA0 || c.val = 0x1680 || (0x2000 ≤ c.val && c.val ≤ 0x200A)
      || c.val = 0x2028 || c.val = 0x2029 || c.val = 0x202F || c.val = 0x205F || c.val = 0x3000

/-- The characters of the Unicode property Alphabetic. -/
def isAlphabetic (c : Char) : Bool :=
  if c.val < 0x80 then c.isAlpha else alphabeticRanges.contains c.toNat

/-- The characters of the general categories Nd, Nl and No. -/
def isNumeric (c : Char) : Bool :=
  if c.val < 0x80 then c.isDigit else numericRanges.contains c.toNat

/-- Alphabetic and numeric characters. -/
def isAlphanumeric (c : Char) : Bool :=
  isAlphabetic c || isNumeric c

/-- The characters of the general category Nd. -/
def isDecimalDigit (c : Char) : Bool :=
  if c.val < 0x80 then c.isDigit else decimalDigitRanges.contains c.toNat

/-- Characters that stand for themselves when a text is shown between quotes: those that print and
do not attach to the character before them. -/
def isShown (c : Char) : Bool :=
  if c.val < 0x80 then 0x20 ≤ c.val && c.val < 0x7F
  else !unprintableRanges.contains c.toNat && !graphemeExtendRanges.contains c.toNat

/-- The characters `0` to `9`, `a` to `f` and `A` to `F`. -/
def isHexDigit (c : Char) : Bool :=
  c.isDigit || ('a' ≤ c && c ≤ 'f') || ('A' ≤ c && c ≤ 'F')

/-- The value of a hexadecimal digit. -/
def hexValue (c : Char) : Nat :=
  if c.isDigit then c.toNat - '0'.toNat
  else if 'a' ≤ c then c.toNat - 'a'.toNat + 10
  else c.toNat - 'A'.toNat + 10

/-! ### Splitting and trimming -/

/-- The parts between the occurrences of `separator`; at least one. -/
def splitOn (separator : Char) : List Char → List (List Char)
  | [] => [[]]
  | c :: rest =>
    if c = separator then [] :: splitOn separator rest
    else match splitOn separator rest with
      | [] => [[c]]
      | part :: parts => (c :: part) :: parts

/-- The characters without the blanks at both ends. -/
def trim (cs : List Char) : List Char :=
  ((cs.dropWhile isBlank).reverse.dropWhile isBlank).reverse

/-! ### Quoted texts -/

/-- The lower-case hexadecimal digits of `n`. -/
def hexDigits (n : Nat) : String :=
  String.ofList (Nat.toDigits 16 n)

/-- One character between the quotes `quote`. -/
def quotedChar (quote c : Char) : String :=
  if c = quote then String.ofList ['\\', c]
  else match c with
    | '\\' => "\\\\"
    | '\n' => "\\n"
    | '\r' => "\\r"
    | '\t' => "\\t"
    | '\x00' => "\\0"
    | c => if isShown c then String.singleton c else "\\u\x7b" ++ hexDigits c.toNat ++ "\x7d"

/-- The text between double quotes. -/
def quoted (s : String) : String :=
  s.toList.foldl (fun written c => written ++ quotedChar '"' c) "\"" ++ "\""

/-- The character between single quotes. -/
def quotedSingle (c : Char) : String :=
  "'" ++ quotedChar '\'' c ++ "'"

end Stencil.Text
