import Stencil.Expression.Basic
import Stencil.Markup.Vocabulary
import Stencil.Location

/-!
# Markup trees

The tree of a template: text, comments, and elements with attributes and children.
-/

namespace Stencil.Markup

/-- The value of an attribute. -/
inductive AttributeValue where
  /-- There is no equals sign. -/
  | absent
  /-- A text, which may hold expressions. -/
  | literal (text : String)
  /-- The attribute is a directive. -/
  | directive (call : DirectiveCall) (expression : Expression)
  deriving Repr, Inhabited

/-- An attribute. -/
structure Attribute where
  name : String
  value : AttributeValue
  /-- The quote around the value. -/
  quote : Option Char
  location : Location
  deriving Repr, Inhabited

/-- Where the value begins that stands behind an attribute's name, an equals sign and a quote if
there is one. -/
def valueLocation (name : String) (quote : Option Char) (location : Location) : Location :=
  location.shift (name.length + 1 + if quote.isSome then 1 else 0)

/-- Where the value of an attribute begins. -/
def Attribute.valueLocation (attr : Attribute) : Location :=
  Markup.valueLocation attr.name attr.quote attr.location

/-- What the tags of an element say. -/
structure Tag where
  name : String
  attributes : List Attribute
  /-- Whether the start tag ends in a slash. -/
  selfClosing : Bool
  /-- Whether there is an end tag. -/
  hasEndTag : Bool
  location : Location
  deriving Repr, Inhabited

/-- A node of a markup tree. -/
inductive Node where
  | text (text : String) (location : Location)
  | comment (text : String) (location : Location)
  | element (tag : Tag) (children : List Node)
  deriving Repr, Inhabited

mutual

/-- The number of elements at and below a node. -/
def Node.elementCount : Node → Nat
  | .text .. => 0
  | .comment .. => 0
  | .element _ children => 1 + elementCount children

/-- The number of elements in a forest. -/
def elementCount : List Node → Nat
  | [] => 0
  | node :: rest => node.elementCount + elementCount rest

end

end Stencil.Markup
