import Stencil.Location
import Stencil.Markup.Vocabulary

/-!
# What can be wrong with markup
-/

namespace Stencil

/-- A fault in markup. -/
inductive MarkupFault where
  | badTagName (c : Char)
  | strayInTag (c : Char)
  | strayInAttributeName (c : Char)
  | malformedEndTag
  | badEndTagName (c : Char)
  | unterminatedComment
  | unterminatedDeclaration
  | unterminatedTag
  | mismatchedEndTag (name expected : String) (openedAt : Location)
  | unmatchedEndTag (name : String)
  | unclosedElement (name : String)
  deriving DecidableEq, Repr

/-- The message of a fault. -/
def MarkupFault.message : MarkupFault → String
  | .badTagName c => "Invalid character '" ++ String.singleton c ++ "' in tag name"
  | .strayInTag c => "Unexpected '" ++ String.singleton c ++ "' in tag"
  | .strayInAttributeName c => "Unexpected '" ++ String.singleton c ++ "' in attribute name"
  | .malformedEndTag => "Malformed closing tag"
  | .badEndTagName c => "Invalid character '" ++ String.singleton c ++ "' in closing tag"
  | .unterminatedComment => "Unterminated comment"
  | .unterminatedDeclaration => "Unterminated markup declaration"
  | .unterminatedTag => "Unterminated tag"
  | .mismatchedEndTag name expected openedAt =>
    "Mismatched closing tag </" ++ name ++ ">, expected </" ++ expected
      ++ "> for the element opened at " ++ openedAt.render
  | .unmatchedEndTag name => "Closing tag </" ++ name ++ "> has no matching open element"
  | .unclosedElement name => "Unclosed element <" ++ name ++ ">"

/-- A fault, where it was found, and the start of the source there. -/
structure MarkupError where
  location : Location
  excerpt : String
  fault : MarkupFault
  deriving DecidableEq, Repr

end Stencil
