import Stencil.Expression.Fragment
import Stencil.Failure
import Stencil.Markup.Scanner
import Stencil.Markup.Tree

/-!
# Building markup trees

Events become a tree: start and end tags of elements with content have to match, up to the case of
ASCII letters, and directive attributes get their expression.

## Main definitions

* `Attribute.ofWritten`: an attribute with its directive
* `Builder`: the elements that are open and what they hold so far
* `Builder.take`: taking an event
-/

namespace Stencil.Markup

/-- The expression of a directive whose value begins at `here`: a single expression, or a text. -/
def directiveExpression (here : Location) : Option String → Except ExpressionError Expression
  | none => .ok (.ofRoot .null)
  | some text => do
    let fragments ← Fragment.parse here text
    match Fragment.single? fragments, Fragment.constant? fragments with
    | some expression, _ => .ok expression
    | none, some constant => .ok (.ofRoot (.text constant))
    | none, none => .error ⟨here, .mixedDirective⟩

/-- The attribute that is written in a start tag. -/
def Attribute.ofWritten (written : WrittenAttribute) : Except ExpressionError Attribute := do
  let value ← match DirectiveCall.ofAttributeName? written.name with
    | some call =>
      let here := Markup.valueLocation written.name written.quote written.location
      let expression ← directiveExpression here written.value
      .ok (.directive call expression)
    | none => match written.value with
      | none => .ok .absent
      | some text => .ok (.literal text)
  .ok ⟨written.name, value, written.quote, written.location⟩

/-- An element whose end tag has not come yet; the children are nearest first. -/
structure OpenElement where
  name : String
  attributes : List Attribute
  location : Location
  children : List Node

/-- The elements that are open, innermost first, and the top of the tree, nearest first. -/
structure Builder where
  opened : List OpenElement
  forest : List Node

namespace Builder

/-- The builder before the first event. -/
def start : Builder := ⟨[], []⟩

/-- Puts a node into the innermost open element. -/
def attach (b : Builder) (node : Node) : Builder :=
  match b.opened with
  | [] => { b with forest := node :: b.forest }
  | inner :: outer => { b with opened := { inner with children := node :: inner.children } :: outer }

/-- The element that has come to its end tag. -/
def closed (element : OpenElement) : Node :=
  .element ⟨element.name, element.attributes, false, true, element.location⟩ element.children.reverse

/-- Takes a start tag. An element that cannot have content is complete. -/
def takeStartTag (b : Builder) (tag : StartTag) : Except Failure Builder :=
  match tag.attributes.mapM Attribute.ofWritten with
  | .error e => .error (.expression e)
  | .ok attributes =>
    if tag.selfClosing || isVoidElement tag.name then
      .ok (b.attach (.element ⟨tag.name, attributes, tag.selfClosing, false, tag.location⟩ []))
    else .ok { b with opened := ⟨tag.name, attributes, tag.location, []⟩ :: b.opened }

/-- Takes an end tag. One of an element without content may stand anywhere. -/
def takeEndTag (b : Builder) (name : String) (location : Location) : Except Failure Builder :=
  let fail (fault : MarkupFault) : Except Failure Builder :=
    if isVoidElement name then .ok b
    else .error (.markup ⟨location, excerpt ("</" ++ name ++ ">").toList, fault⟩)
  match b.opened with
  | [] => fail (.unmatchedEndTag name)
  | inner :: outer =>
    if Text.eqIgnoringAsciiCase inner.name name then
      .ok ({ b with opened := outer }.attach (closed inner))
    else fail (.mismatchedEndTag name inner.name inner.location)

/-- Takes an event. -/
def take (b : Builder) : Event → Except Failure Builder
  | .text text location => .ok (b.attach (.text text location))
  | .comment text location => .ok (b.attach (.comment text location))
  | .startTag tag => b.takeStartTag tag
  | .endTag name location => b.takeEndTag name location
  | .finish _ =>
    match b.opened with
    | [] => .ok b
    | inner :: _ =>
      .error (.markup ⟨inner.location, excerpt ("<" ++ inner.name).toList,
        .unclosedElement inner.name⟩)

/-- Takes events in turn. -/
def takeAll (b : Builder) (events : List Event) : Except Failure Builder :=
  events.foldlM take b

/-- The tree, once all events have been taken. -/
def tree (b : Builder) : List Node :=
  b.forest.reverse

end Builder

end Stencil.Markup
