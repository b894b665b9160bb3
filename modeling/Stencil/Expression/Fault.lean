import Stencil.Expression.Token

/-!
# What can be wrong with an expression
-/

namespace Stencil

/-- What a reader of expressions needs at some point. -/
inductive Expectation where
  | choiceColon
  | propertyBracket
  | paren
  | arrayBracket
  deriving DecidableEq, Repr

/-- The message for what is needed. -/
def Expectation.message : Expectation → String
  | .choiceColon => "Expected ':' in ternary expression"
  | .propertyBracket => "Expected ']' after property"
  | .paren => "Expected ')'"
  | .arrayBracket => "Expected ']' after array items"

/-- The number of levels that terms may be nested. -/
def maxNesting : Nat := 64

/-- A fault in an expression. -/
inductive ExpressionFault where
  | loneAmpersand
  | loneBar
  | unterminatedText
  | badEscape
  | badNumber (text : String)
  | strayCharacter (c : Char)
  | unexpected (token : Option Token)
  | noOptionName (found : Token)
  | noPropertyName (found : Token)
  | missing (needed : Expectation) (found : Option Token)
  | tooDeep
  | unterminated
  | mixedDirective
  deriving DecidableEq, Repr

/-- The message of a fault. -/
def ExpressionFault.message : ExpressionFault → String
  | .loneAmpersand => "Expected '&&'"
  | .loneBar => "Expected '||'"
  | .unterminatedText => "Unterminated string literal"
  | .badEscape => "Invalid unicode escape"
  | .badNumber text => "Invalid number '" ++ text ++ "'"
  | .strayCharacter c => "Unexpected character '" ++ String.singleton c ++ "'"
  | .unexpected token => "Unexpected " ++ Token.describeNext token
  | .noOptionName found => "Expected option name, found " ++ found.describe
  | .noPropertyName found => "Expected property name after '.', found " ++ found.describe
  | .missing needed found => needed.message ++ ", found " ++ Token.describeNext found
  | .tooDeep => "Expression nesting exceeds " ++ toString maxNesting ++ " levels"
  | .unterminated => "Unterminated expression, missing '\x7d'"
  | .mixedDirective => "Directive values must be a single expression or plain text"

/-- A fault and where it was found. -/
structure ExpressionError where
  location : Location
  fault : ExpressionFault
  deriving DecidableEq, Repr

end Stencil
