import Stencil.Expression.Outline
import Stencil.Markup.Template

/-!
# Outlines of templates
-/

namespace Stencil

/-- The outline of a location. -/
def Location.outline (here : Location) : Outline :=
  .record "Location" [("line", .nat here.line), ("column", .nat here.column)]

namespace Markup

/-- The outline of a directive. -/
def DirectiveCall.outline (call : DirectiveCall) : Outline :=
  .record "PluginCallInfo"
    [("name", .text call.name), ("arguments", .list (call.arguments.map .text))]

/-- The outline of the value of an attribute. -/
def AttributeValue.outline : AttributeValue → Outline
  | .absent => .word "Empty"
  | .literal text => .record "Literal" [("text", .text text)]
  | .directive call expression =>
    .record "PluginCall" [("descriptor", call.outline), ("expression", expression.outline)]

/-- The outline of an attribute. -/
def Attribute.outline (attr : Attribute) : Outline :=
  .record "Attribute"
    [("name", .text attr.name), ("value", attr.value.outline),
      ("quote", .option (attr.quote.map fun quote => .word (Text.quotedSingle quote))),
      ("location", attr.location.outline)]

/-- The outline of the name and the attributes of an element. -/
def contextOutline (name : String) (attributes : List Attribute) : Outline :=
  .record "ElementContext"
    [("tag_name", .text name), ("attributes", .list (attributes.map Attribute.outline)),
      ("invocations", .nat 0)]

/-- The outline of text or of a comment. -/
def textOutline (kind text : String) (location : Location) : Outline :=
  .wrapped kind
    (.record (kind ++ "Node") [("text", .text text), ("location", location.outline)])

mutual

/-- The outline of a node. -/
def Node.outline : Node → Outline
  | .text text location => textOutline "Text" text location
  | .comment text location => textOutline "Comment" text location
  | .element tag children =>
    .wrapped "Element" (.record "ElementNode"
      [("name", .text tag.name), ("children", .list (outlineNodes children)),
        ("context", contextOutline tag.name tag.attributes),
        ("self_closing", .bool tag.selfClosing), ("has_end_tag", .bool tag.hasEndTag),
        ("location", tag.location.outline)])

/-- The outlines of a forest. -/
def outlineNodes : List Node → List Outline
  | [] => []
  | node :: rest => node.outline :: outlineNodes rest

end

/-- The outline of a template. -/
def Template.outline (template : Template) : Outline :=
  .record "Template" [("name", .text ""), ("children", .list (outlineNodes template.children))]

end Markup

end Stencil
