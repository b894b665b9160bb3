import Stencil.Expression.Json
import Stencil.Markup.Template

/-!
# Templates as JSON
-/

namespace Stencil

/-- A location as JSON. -/
def Location.json (here : Location) : Json :=
  .object [("line", .nat here.line), ("column", .nat here.column)]

namespace Markup

/-- The name and the arguments of a directive as JSON. -/
def DirectiveCall.json (call : DirectiveCall) : Json :=
  .object [("name", .text call.name), ("arguments", .array (call.arguments.map .text))]

/-- The value of an attribute as JSON. -/
def AttributeValue.json : AttributeValue → Json
  | .absent => .object [("kind", .text "empty")]
  | .literal text => .object [("kind", .text "literal"), ("text", .text text)]
  | .directive call expression =>
    .object [("kind", .text "pluginCall"), ("descriptor", call.json),
      ("expression", expression.json)]

/-- An attribute as JSON. -/
def Attribute.json (attr : Attribute) : Json :=
  .object [("name", .text attr.name), ("value", attr.value.json),
    ("quote", match attr.quote with
      | none => .null
      | some quote => .text (String.singleton quote)),
    ("location", attr.location.json)]

/-- The name and the attributes of an element as JSON. -/
def contextJson (name : String) (attributes : List Attribute) : Json :=
  .object [("tagName", .text name), ("attributes", .array (attributes.map Attribute.json))]

mutual

/-- A node as JSON. -/
def Node.json : Node → Json
  | .text text location =>
    .object [("type", .text "text"), ("text", .text text), ("location", location.json)]
  | .comment text location =>
    .object [("type", .text "comment"), ("text", .text text), ("location", location.json)]
  | .element tag children =>
    .object [("type", .text "element"), ("name", .text tag.name),
      ("children", .array (jsonOfNodes children)),
      ("context", contextJson tag.name tag.attributes), ("self_closing", .bool tag.selfClosing),
      ("has_end_tag", .bool tag.hasEndTag), ("location", tag.location.json)]

/-- A forest as JSON. -/
def jsonOfNodes : List Node → List Json
  | [] => []
  | node :: rest => node.json :: jsonOfNodes rest

end

/-- A template as JSON. -/
def Template.json (template : Template) : Json :=
  .object [("name", .text ""), ("children", .array (jsonOfNodes template.children))]

end Markup

end Stencil
