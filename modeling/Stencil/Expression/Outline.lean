import Stencil.Expression.Basic
import Stencil.Outline

/-!
# Outlines of terms and expressions
-/

namespace Stencil

/-- The name of the operator in outlines. -/
def UnaryOperator.title : UnaryOperator → String
  | .not => "Not"
  | .isWhiteSpace => "IsWhiteSpace"
  | .length => "Length"

/-- The name of the operator in outlines. -/
def BinaryOperator.title : BinaryOperator → String
  | .and => "And"
  | .or => "Or"
  | .equal => "Equal"
  | .notEqual => "NotEqual"
  | .lt => "Lt"
  | .leq => "Leq"
  | .gt => "Gt"
  | .geq => "Geq"
  | .in => "In"

namespace Term

mutual

/-- The outline of a term. -/
def outline : Term → Outline
  | .null => .word "NullLiteral"
  | .text value => .wrapped "StringConstant" (.text value)
  | .number value => .wrapped "NumericConstant" (.number value)
  | .boolean value => .wrapped "BooleanConstant" (.bool value)
  | .identifier name => .wrapped "Identifier" (.text name)
  | .property target key =>
    .record "PropertyAccess" [("target", outline target), ("property", outline key)]
  | .array items => .wrapped "ArrayLiteral" (.list (outlineItems items))
  | .map entries => .wrapped "MapLiteral" (.map (outlineEntries entries))
  | .unary operator operand =>
    .record "UnaryOperation" [("operator", .word operator.title), ("target", outline operand)]
  | .binary operator left right =>
    .record "BinaryOperation"
      [("operator", .word operator.title), ("left", outline left), ("right", outline right)]
  | .choice condition yes no =>
    .record "TernaryOperation"
      [("condition", outline condition), ("then_branch", outline yes), ("else_branch", outline no)]
  | .call function arguments =>
    .record "RuntimeCall"
      [("function", .text function), ("arguments", .list (outlineItems arguments))]

/-- The outlines of terms. -/
def outlineItems : List Term → List Outline
  | [] => []
  | item :: rest => outline item :: outlineItems rest

/-- The outlines of entries. -/
def outlineEntries : List (String × Term) → List (String × Outline)
  | [] => []
  | (name, value) :: rest => (name, outline value) :: outlineEntries rest

end

end Term

/-- The outline of an expression. -/
def Expression.outline (e : Expression) : Outline :=
  .record "Expression"
    [("root", e.root.outline), ("options", .map (Term.outlineEntries e.options))]

end Stencil
