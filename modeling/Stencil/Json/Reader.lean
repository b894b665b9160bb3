import Stencil.Json.Basic
import Stencil.Text.Basic

/-!
# Reading JSON

`Json.parse?` reads one value that fills a whole text. Values nested more than 127 deep, numbers
beyond the range of binary numbers and texts with half of a surrogate pair are refused.
-/

namespace Stencil.Json

/-- What a part of the reader gives: a result and the characters after it. -/
abbrev Part (α : Type) := Option (α × List Char)

/-- The characters after any blanks. -/
def skipBlanks : List Char → List Char :=
  List.dropWhile fun c => c = ' ' || c = '\n' || c = '\t' || c = '\r'

/-- Four hexadecimal digits. -/
def unit : List Char → Part Nat
  | a :: b :: c :: d :: rest =>
    if [a, b, c, d].all Text.isHexDigit then
      some ([a, b, c, d].foldl (fun value digit => 16 * value + Text.hexValue digit) 0, rest)
    else none
  | _ => none

/-- The character of an escape, after the backslash. -/
def escaped : List Char → Option (Char × List Char)
  | '"' :: rest => some ('"', rest)
  | '\\' :: rest => some ('\\', rest)
  | '/' :: rest => some ('/', rest)
  | 'b' :: rest => some ('\x08', rest)
  | 'f' :: rest => some ('\x0c', rest)
  | 'n' :: rest => some ('\n', rest)
  | 'r' :: rest => some ('\r', rest)
  | 't' :: rest => some ('\t', rest)
  | 'u' :: rest => do
    let (first, rest) ← unit rest
    if 0xDC00 ≤ first && first ≤ 0xDFFF then none
    else if 0xD800 ≤ first && first ≤ 0xDBFF then
      -- The first half of a pair stands for nothing without the second.
      match rest with
      | '\\' :: 'u' :: rest => do
        let (second, rest) ← unit rest
        if 0xDC00 ≤ second && second ≤ 0xDFFF then
          some (Char.ofNat (0x10000 + (first - 0xD800) * 0x400 + (second - 0xDC00)), rest)
        else none
      | _ => none
    else some (Char.ofNat first, rest)
  | _ => none

/-- The characters up to the closing quote; `found` holds those before, nearest first. -/
def characters (found : List Char) (cs : List Char) : Part String :=
  match cs with
  | [] => none
  | '"' :: rest => some (String.ofList found.reverse, rest)
  | '\\' :: rest =>
    match escaped rest with
    | some (c, after) =>
      if after.length < rest.length + 1 then characters (c :: found) after else none
    | none => none
  | c :: rest => if c.val < 0x20 then none else characters (c :: found) rest
termination_by cs.length

/-- Digits with no needless zero in front. -/
def wholeDigits (cs : List Char) : Part (List Char) :=
  match cs with
  | '0' :: rest => some (['0'], rest)
  | _ =>
    let digits := cs.takeWhile Char.isDigit
    if digits.isEmpty then none else some (digits, cs.dropWhile Char.isDigit)

/-- The fraction of a number, with its point; nothing if there is no point. -/
def fractionDigits : List Char → Part (List Char)
  | '.' :: rest =>
    let digits := rest.takeWhile Char.isDigit
    if digits.isEmpty then none else some ('.' :: digits, rest.dropWhile Char.isDigit)
  | cs => some ([], cs)

/-- The power of ten of a number, with its mark; nothing if there is no mark. -/
def powerDigits : List Char → Part (List Char)
  | mark :: rest =>
    if mark = 'e' || mark = 'E' then
      let (sign, rest) := match rest with
        | '-' :: rest => (['-'], rest)
        | '+' :: rest => ([], rest)
        | rest => ([], rest)
      let digits := rest.takeWhile Char.isDigit
      if digits.isEmpty then none
      else some ('e' :: sign ++ digits, rest.dropWhile Char.isDigit)
    else some ([], mark :: rest)
  | [] => some ([], [])

/-- A number. Without a fraction and a power of ten it is an integer, if it fits into 64 bits. -/
def numeral (cs : List Char) : Option (Json × List Char) := do
  let (negative, rest) := match cs with
    | '-' :: rest => (true, rest)
    | rest => (false, rest)
  let (whole, rest) ← wholeDigits rest
  let (fraction, rest) ← fractionDigits rest
  let (power, rest) ← powerDigits rest
  let magnitude := decimalValue whole
  let fits :=
    if negative then 0 < magnitude && magnitude ≤ Nat.pow 2 63 else magnitude < Nat.pow 2 64
  if fraction.isEmpty && power.isEmpty && fits then
    some (.integer (if negative then -(magnitude : Int) else magnitude), rest)
  else
    let exact ← Scientific.parse? (whole ++ fraction ++ power)
    match exact.toBinary64 negative with
    | .infinite _ => none
    | value => some (.number value, rest)

/-- The characters after `word`, if the text begins with it. -/
def literal (word : List Char) (value : Json) (cs : List Char) : Part Json :=
  if word.isPrefixOf cs then some (value, cs.drop word.length) else none

/-- Items up to the closing bracket, each read by `item`; `found` holds those before, nearest
first. -/
def items (item : List Char → Part Json) (found : List Json) (cs : List Char) : Part (List Json) :=
  match item cs with
  | none => none
  | some (value, after) =>
    match skipBlanks after with
    | ']' :: rest => some ((value :: found).reverse, rest)
    | ',' :: rest =>
      if rest.length < cs.length then items item (value :: found) rest else none
    | _ => none
termination_by cs.length

/-- Fields up to the closing brace, each value read by `item`; `found` holds those before, nearest
first. -/
def fields (item : List Char → Part Json) (found : List (String × Json)) (cs : List Char) :
    Part (List (String × Json)) :=
  match skipBlanks cs with
  | '"' :: rest =>
    match characters [] rest with
    | none => none
    | some (name, after) =>
      match skipBlanks after with
      | ':' :: rest =>
        match item rest with
        | none => none
        | some (value, after) =>
          match skipBlanks after with
          | '\x7d' :: rest => some (((name, value) :: found).reverse, rest)
          | ',' :: rest =>
            if rest.length < cs.length then fields item ((name, value) :: found) rest else none
          | _ => none
      | _ => none
  | _ => none
termination_by cs.length

/-- A value with at most `depth` arrays and objects around each other. -/
def value (depth : Nat) (cs : List Char) : Part Json :=
  match skipBlanks cs with
  | 'n' :: rest => literal "ull".toList .null rest
  | 't' :: rest => literal "rue".toList (.bool true) rest
  | 'f' :: rest => literal "alse".toList (.bool false) rest
  | '"' :: rest => (characters [] rest).map fun (s, rest) => (.text s, rest)
  | '[' :: rest =>
    match depth with
    | 0 => none
    | depth + 1 =>
      match skipBlanks rest with
      | ']' :: rest => some (.array [], rest)
      | rest => (items (value depth) [] rest).map fun (found, rest) => (.array found, rest)
  | '\x7b' :: rest =>
    match depth with
    | 0 => none
    | depth + 1 =>
      match skipBlanks rest with
      | '\x7d' :: rest => some (.object [], rest)
      | rest => (fields (value depth) [] rest).map fun (found, rest) => (.object found, rest)
  | rest => numeral rest

/-- Reads a text that holds one value and blanks. The fields of objects stay in the order in which
they are written, also those of one name. -/
def parse? (s : String) : Option Json :=
  match value 127 s.toList with
  | some (result, rest) => if (skipBlanks rest).isEmpty then some result else none
  | none => none

end Stencil.Json
