import Stencil.Json.Basic
import Stencil.Text.LowerCase

/-!
# Coercions of values

The values that a template works with at run time are JSON values. Where a text, a truth value or a
collection is needed, every value stands for one.
-/

namespace Stencil.Json

/-- A number as text: an integer of less than sixteen digits as such, else as JSON writes it. -/
def numberText (value : Binary64) : String :=
  match value.integer? with
  | some n => if n.natAbs < Nat.pow 10 15 then toString n else writeNumber value
  | none => writeNumber value

mutual

/-- The text that a value stands for. -/
def toText : Json → String
  | .null => ""
  | .text value => value
  | .bool value => if value then "true" else "false"
  | .integer value => toString value
  | .number value => numberText value
  | .array items => ",".intercalate (textsOfItems items)
  | .object fields => compact (.object fields)

/-- The texts that values stand for. -/
def textsOfItems : List Json → List String
  | [] => []
  | item :: rest => toText item :: textsOfItems rest

end

/-- The truth value that a value stands for. -/
def toBool : Json → Bool
  | .null => false
  | .bool value => value
  | .integer value => value ≠ 0
  | .number value => !value.isZero
  | .text value => !value.isEmpty && !Text.eqIgnoringAsciiCase value "false"
  | .array items => !items.isEmpty
  | .object fields => !fields.isEmpty

/-- The collection that a value stands for; that of an object are the names of its fields. -/
def toItems : Json → List Json
  | .null => []
  | .array items => items
  | .object fields => fields.map fun (name, _) => .text name
  | value => [value]

end Stencil.Json
