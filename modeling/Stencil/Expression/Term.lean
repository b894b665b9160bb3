import Stencil.Decimal.Layout
import Stencil.Sorted
import Stencil.Text.Basic

/-!
# Terms

A term is the tree of an expression: literals, names, property accesses, operators, and the calls of
runtime functions that filters and directives put around them.

## Main definitions

* `Term`: the tree
* `Term.render`: the written form
* `Term.names`: the names that occur in a term, from left to right
-/

namespace Stencil

/-- Whether a text can stand as a name: an alphabetic character or an underscore, then alphanumeric
characters, underscores and colons. -/
def isIdentifier (s : String) : Bool :=
  match s.toList with
  | [] => false
  | first :: rest =>
    (Text.isAlphabetic first || first = '_')
      && rest.all fun c => Text.isAlphanumeric c || c = '_' || c = ':'

/-- Operators in front of one operand. -/
inductive UnaryOperator where
  | not
  | isWhiteSpace
  | length
  deriving DecidableEq, Repr

/-- Operators between two operands. -/
inductive BinaryOperator where
  | and
  | or
  | equal
  | notEqual
  | lt
  | leq
  | gt
  | geq
  | in
  deriving DecidableEq, Repr

/-- How the operator is written in front of its operand. -/
def UnaryOperator.symbol : UnaryOperator → String
  | .not => "!"
  | .isWhiteSpace => "isWhiteSpace "
  | .length => "length "

/-- How the operator is written between its operands. -/
def BinaryOperator.symbol : BinaryOperator → String
  | .and => "&&"
  | .or => "||"
  | .equal => "=="
  | .notEqual => "!="
  | .lt => "<"
  | .leq => "<="
  | .gt => ">"
  | .geq => ">="
  | .in => "in"

/-- The tree of an expression. -/
inductive Term where
  | null
  | text (value : String)
  | number (value : Binary64)
  | boolean (value : Bool)
  | identifier (name : String)
  | property (target key : Term)
  | array (items : List Term)
  | map (entries : List (String × Term))
  | unary (operator : UnaryOperator) (operand : Term)
  | binary (operator : BinaryOperator) (left right : Term)
  | choice (condition yes no : Term)
  | call (function : String) (arguments : List Term)
  deriving Repr, Inhabited

namespace Term

/-- The number as an integer if it is one of less than sixteen digits, else in positional
notation. -/
def writeNumber (value : Binary64) : String :=
  match value.integer? with
  | some n => if n.natAbs < Nat.pow 10 15 then toString n else NumberLayout.plain.write value
  | none => NumberLayout.plain.write value

/-- One character of a text literal. -/
def escape (c : Char) : String :=
  match c with
  | '\'' => "\\'"
  | '\\' => "\\\\"
  | '\n' => "\\n"
  | '\t' => "\\t"
  | '\r' => "\\r"
  | c => String.singleton c

/-- A text literal, between single quotes. -/
def quote (s : String) : String :=
  s.toList.foldl (fun written c => written ++ escape c) "'" ++ "'"

/-- The name of a property that is written after a dot. -/
def dotted? : Term → Option String
  | .text key => if isIdentifier key then some key else none
  | _ => none

mutual

/-- The written form of a term. -/
def render : Term → String
  | .null => "null"
  | .text value => quote value
  | .number value => writeNumber value
  | .boolean value => if value then "true" else "false"
  | .identifier name => name
  | .property target key =>
    match dotted? key with
    | some name => render target ++ "." ++ name
    | none => render target ++ "[" ++ render key ++ "]"
  | .array items => "[" ++ renderItems items ++ "]"
  | .map entries => "\x7b" ++ renderEntries entries ++ "\x7d"
  | .unary operator operand => operator.symbol ++ render operand
  | .binary operator left right =>
    "(" ++ render left ++ " " ++ operator.symbol ++ " " ++ render right ++ ")"
  | .choice condition yes no =>
    "(" ++ render condition ++ " ? " ++ render yes ++ " : " ++ render no ++ ")"
  | .call function arguments => function ++ "(" ++ renderItems arguments ++ ")"

/-- Terms with commas between them. -/
def renderItems : List Term → String
  | [] => ""
  | [item] => render item
  | item :: next :: rest => render item ++ ", " ++ renderItems (next :: rest)

/-- Entries with commas between them. -/
def renderEntries : List (String × Term) → String
  | [] => ""
  | [(name, value)] => name ++ ": " ++ render value
  | (name, value) :: next :: rest =>
    name ++ ": " ++ render value ++ ", " ++ renderEntries (next :: rest)

end

mutual

/-- The names in a term, from left to right, as often as they occur. -/
def names : Term → List String
  | .identifier name => [name]
  | .property target key => names target ++ names key
  | .array items => namesOfItems items
  | .map entries => namesOfEntries entries
  | .unary _ operand => names operand
  | .binary _ left right => names left ++ names right
  | .choice condition yes no => names condition ++ names yes ++ names no
  | .call _ arguments => namesOfItems arguments
  | .null => []
  | .text _ => []
  | .number _ => []
  | .boolean _ => []

/-- The names in terms. -/
def namesOfItems : List Term → List String
  | [] => []
  | item :: rest => names item ++ namesOfItems rest

/-- The names in the values of entries. -/
def namesOfEntries : List (String × Term) → List String
  | [] => []
  | (_, value) :: rest => names value ++ namesOfEntries rest

end

/-- Whether the term is the null literal. -/
def isNull : Term → Bool
  | .null => true
  | _ => false

/-- The value of a text literal. -/
def text? : Term → Option String
  | .text value => some value
  | _ => none

end Term

end Stencil
