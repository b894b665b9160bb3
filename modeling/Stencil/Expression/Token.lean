import Stencil.Expression.Term
import Stencil.Location

/-!
# Tokens of expressions
-/

namespace Stencil

/-- A token of an expression. -/
inductive Token where
  | text (value : String)
  | number (value : Binary64)
  | identifier (name : String)
  | boolean (value : Bool)
  | null
  | dot
  | leftBracket
  | rightBracket
  | leftParen
  | rightParen
  | comma
  | not
  | operator (operator : BinaryOperator)
  | question
  | colon
  | atSign
  | assign
  deriving DecidableEq, Repr, Inhabited

/-- How a token is named in messages. -/
def Token.describe : Token → String
  | .text value => "string('" ++ value ++ "')"
  | .number value => "number(" ++ NumberLayout.plain.write value ++ ")"
  | .identifier name => "identifier(" ++ name ++ ")"
  | .boolean value => if value then "true" else "false"
  | .null => "null"
  | .dot => "."
  | .leftBracket => "["
  | .rightBracket => "]"
  | .leftParen => "("
  | .rightParen => ")"
  | .comma => ","
  | .not => "!"
  | .operator op => op.symbol
  | .question => "?"
  | .colon => ":"
  | .atSign => "@"
  | .assign => "="

/-- How a token, or the end of the tokens, is named in messages. -/
def Token.describeNext : Option Token → String
  | some token => token.describe
  | none => "end of expression"

/-- A token and where it begins. -/
structure PlacedToken where
  token : Token
  location : Location
  deriving DecidableEq, Repr, Inhabited

/-- The tokens of a text and where the text ends. -/
structure TokenList where
  tokens : List PlacedToken
  finish : Location
  deriving DecidableEq, Repr

end Stencil
