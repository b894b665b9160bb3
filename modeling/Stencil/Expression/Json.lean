import Stencil.Expression.Basic
import Stencil.Json.Basic

/-!
# Terms and expressions as JSON

A term is an object with its kind under `type` and, if it has parts, these under `value`.
-/

namespace Stencil

/-- The name of the operator in JSON. -/
def UnaryOperator.label : UnaryOperator → String
  | .not => "not"
  | .isWhiteSpace => "isWhiteSpace"
  | .length => "length"

/-- The name of the operator in JSON. -/
def BinaryOperator.label : BinaryOperator → String
  | .and => "and"
  | .or => "or"
  | .equal => "equal"
  | .notEqual => "notEqual"
  | .lt => "lt"
  | .leq => "leq"
  | .gt => "gt"
  | .geq => "geq"
  | .in => "in"

namespace Term

/-- An object for a term of a kind with parts. -/
def tagged (kind : String) (value : Json) : Json :=
  .object [("type", .text kind), ("value", value)]

mutual

/-- A term as JSON. -/
def json : Term → Json
  | .null => .object [("type", .text "nullLiteral")]
  | .text value => tagged "stringConstant" (.text value)
  | .number value => tagged "numericConstant" (.number value)
  | .boolean value => tagged "booleanConstant" (.bool value)
  | .identifier name => tagged "identifier" (.text name)
  | .property target key =>
    tagged "propertyAccess" (.object [("target", json target), ("property", json key)])
  | .array items => tagged "arrayLiteral" (.array (jsonOfItems items))
  | .map entries => tagged "mapLiteral" (.object (jsonOfEntries entries))
  | .unary operator operand =>
    tagged "unaryOperation" (.object [("operator", .text operator.label), ("target", json operand)])
  | .binary operator left right =>
    tagged "binaryOperation"
      (.object [("operator", .text operator.label), ("left", json left), ("right", json right)])
  | .choice condition yes no =>
    tagged "ternaryOperation"
      (.object [("condition", json condition), ("then_branch", json yes), ("else_branch", json no)])
  | .call function arguments =>
    tagged "runtimeCall"
      (.object [("function", .text function), ("arguments", .array (jsonOfItems arguments))])

/-- Terms as JSON. -/
def jsonOfItems : List Term → List Json
  | [] => []
  | item :: rest => json item :: jsonOfItems rest

/-- Entries as JSON. -/
def jsonOfEntries : List (String × Term) → List (String × Json)
  | [] => []
  | (name, value) :: rest => (name, json value) :: jsonOfEntries rest

end

end Term

/-- An expression as JSON. -/
def Expression.json (e : Expression) : Json :=
  .object [("root", e.root.json), ("options", .object (Term.jsonOfEntries e.options))]

end Stencil
