import Stencil.Decimal.Layout
import Stencil.Sorted

/-!
# JSON values

A JSON value with its two written forms: on one line without blanks, and indented by two blanks.
Integers and other numbers are kept apart, as they are written differently.

## Main definitions

* `Json`: a value; the fields of an object are in the order in which they are written
* `Json.compact`, `Json.indented`: the written forms
* `Json.sorted`: the value with the fields of every object in order, each name once
-/

namespace Stencil

/-- A JSON value. -/
inductive Json where
  | null
  | bool (value : Bool)
  | integer (value : Int)
  | number (value : Binary64)
  | text (value : String)
  | array (items : List Json)
  | object (fields : List (String × Json))
  deriving Repr, Inhabited

namespace Json

/-- A natural number as a JSON value. -/
def nat (n : Nat) : Json := .integer n

/-- A hexadecimal digit below sixteen. -/
def hexDigit (n : Nat) : Char :=
  "0123456789abcdef".toList.getD n '0'

/-- One character of a JSON text. -/
def escape (c : Char) : String :=
  match c with
  | '"' => "\\\""
  | '\\' => "\\\\"
  | '\n' => "\\n"
  | '\r' => "\\r"
  | '\t' => "\\t"
  | '\x08' => "\\b"
  | '\x0c' => "\\f"
  | c =>
    if c.val < 0x20 then
      "\\u00" ++ String.ofList [hexDigit (c.toNat / 16), hexDigit (c.toNat % 16)]
    else String.singleton c

/-- A text between quotes. -/
def quote (s : String) : String :=
  s.toList.foldl (fun written c => written ++ escape c) "\"" ++ "\""

/-- A number; an infinity has no written form and becomes `null`. -/
def writeNumber : Binary64 → String
  | .infinite _ => "null"
  | value => NumberLayout.json.write value

mutual

/-- The value on one line, without blanks. -/
def compact : Json → String
  | .null => "null"
  | .bool value => if value then "true" else "false"
  | .integer value => toString value
  | .number value => writeNumber value
  | .text value => quote value
  | .array items => "[" ++ compactItems items ++ "]"
  | .object fields => "\x7b" ++ compactFields fields ++ "\x7d"

/-- Items with commas between them. -/
def compactItems : List Json → String
  | [] => ""
  | [item] => compact item
  | item :: next :: rest => compact item ++ "," ++ compactItems (next :: rest)

/-- Fields with commas between them. -/
def compactFields : List (String × Json) → String
  | [] => ""
  | [(name, value)] => quote name ++ ":" ++ compact value
  | (name, value) :: next :: rest =>
    quote name ++ ":" ++ compact value ++ "," ++ compactFields (next :: rest)

end

/-- A line feed and `depth` steps of two blanks. -/
def newLine (depth : Nat) : String :=
  "\n" ++ "".pushn ' ' (2 * depth)

mutual

/-- The value on several lines; `depth` is the number of values around it. -/
def indentedAt (depth : Nat) : Json → String
  | .array [] => "[]"
  | .object [] => "\x7b\x7d"
  | .array items => "[" ++ indentedItems (depth + 1) items ++ newLine depth ++ "]"
  | .object fields => "\x7b" ++ indentedFields (depth + 1) fields ++ newLine depth ++ "\x7d"
  | .null => "null"
  | .bool value => if value then "true" else "false"
  | .integer value => toString value
  | .number value => writeNumber value
  | .text value => quote value

/-- Items, each on lines of its own. -/
def indentedItems (depth : Nat) : List Json → String
  | [] => ""
  | [item] => newLine depth ++ indentedAt depth item
  | item :: next :: rest =>
    newLine depth ++ indentedAt depth item ++ "," ++ indentedItems depth (next :: rest)

/-- Fields, each on lines of its own. -/
def indentedFields (depth : Nat) : List (String × Json) → String
  | [] => ""
  | [(name, value)] => newLine depth ++ quote name ++ ": " ++ indentedAt depth value
  | (name, value) :: next :: rest =>
    newLine depth ++ quote name ++ ": " ++ indentedAt depth value ++ ","
      ++ indentedFields depth (next :: rest)

end

/-- The value on several lines, indented by two blanks. -/
def indented (value : Json) : String :=
  indentedAt 0 value

mutual

/-- The value with the fields of every object in increasing order of their names; of several fields
of one name, the last. -/
def sorted : Json → Json
  | .array items => .array (sortedItems items)
  | .object fields => .object (sortedFields [] fields)
  | value => value

/-- The items, each sorted. -/
def sortedItems : List Json → List Json
  | [] => []
  | item :: rest => sorted item :: sortedItems rest

/-- The fields put into `found`, each sorted. -/
def sortedFields (found : Entries Json) : List (String × Json) → Entries Json
  | [] => found
  | (name, value) :: rest => sortedFields (found.insert name (sorted value)) rest

end

end Json

end Stencil
