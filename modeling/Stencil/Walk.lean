import Stencil.Directive.Basic
import Stencil.Element

/-!
# The walk over a template

The walk goes through the tree of a template from left to right and writes its commands: text as it
is, expressions through a variable of their own, and elements with what their directives write at
the hooks.

## Main definitions

* `Fragment.emit`, `emitInterpolated`: text with expressions
* `Markup.Attribute.emit`: an attribute
* `Markup.Node.emit`: a node with all below it
-/

namespace Stencil

/-! ### Text with expressions -/

/-- The expression that the filters leave where it is written; without a placement it is written in
the content of an element. -/
def Written.transformIn (source : Written) : Option Placement → Emit Expression
  | some placement => source.transform (some placement)
  | none => modifyGet (Session.transformText source.expression source.location)

/-- Writes a fragment of a text; an expression is bound to a new variable, which is written. -/
def Fragment.emit (placement? : Option Placement) : Fragment → Emit Unit
  | .text literal => modify (Session.outText literal)
  | .expression e here => do
    let value ← Written.transformIn ⟨e, here⟩ placement?
    let name ← modifyGet (Session.bindTemporary value.root here)
    modify (Session.outVariable name)
    Session.unbind

/-- Reports that an expression cannot be read. -/
def reportMalformed (error : ExpressionError) : Emit Unit :=
  modify (Session.report .error error.location (.malformed error.fault))

/-- Writes text with expressions. If one of them cannot be read, the text is written as it is. -/
def emitInterpolated (text : String) (here : Location) (placement? : Option Placement) :
    Emit Unit := do
  match Fragment.parse here text with
  | .ok fragments => fragments.forM (Fragment.emit placement?)
  | .error error =>
    reportMalformed error
    modify (Session.outText text)

namespace Markup

/-! ### Attributes -/

/-- Writes an attribute whose whole value is one expression: it is left out if the value is false. -/
def emitDynamicAttribute (name : String) (source : Written) (quote : String) : Emit Unit := do
  let value ← source.transform (some (.ofAttribute name))
  let variableName ← modifyGet (Session.bindTemporary value.root source.location)
  modify (Session.startConditional variableName true)
  modify (Session.outText (" " ++ name ++ "=" ++ quote))
  modify (Session.outVariable variableName)
  modify (Session.outText quote)
  modify Session.endConditional
  Session.unbind

/-- Writes an attribute whose value is a text. -/
def emitLiteralAttribute (name text : String) (here : Location) (quote : String) : Emit Unit := do
  match Fragment.parse here text with
  | .error error =>
    reportMalformed error
    modify (Session.outText (" " ++ name ++ "=" ++ quote ++ text ++ quote))
  | .ok [.expression e place] => emitDynamicAttribute name ⟨e, place⟩ quote
  | .ok fragments =>
    modify (Session.outText (" " ++ name ++ "=" ++ quote))
    fragments.forM (Fragment.emit (some (.ofAttribute name)))
    modify (Session.outText quote)

/-- Writes an attribute. A value without quotes gets double quotes. -/
def Attribute.emit (attr : Attribute) : Emit Unit :=
  let quote := String.singleton (attr.quote.getD '"')
  match attr.value with
  | .absent => modify (Session.outText (" " ++ attr.name))
  | .directive _ e => emitDynamicAttribute attr.name ⟨e, attr.valueLocation⟩ quote
  | .literal text => emitLiteralAttribute attr.name text attr.valueLocation quote

/-! ### Directives -/

/-- The invocations of the directives among attributes, with their priorities. A directive that is
not known is reported. -/
def invokeAll (registry : Registry) : List Attribute → Emit (List (Invocation × Int))
  | [] => return []
  | attr :: rest =>
    match attr.value with
    | .directive call e =>
      match registry.find? call.name with
      | some directive => do
        let invocation ← directive.invoke call ⟨e, attr.location⟩
        let others ← invokeAll registry rest
        return (invocation, directive.priority) :: others
      | none => do
        modify (Session.report .error attr.location (.unknownDirective call))
        invokeAll registry rest
    | _ => invokeAll registry rest

/-- Whether an attribute is written as it stands: it is no directive that is known. -/
def isWritten (registry : Registry) (attr : Attribute) : Bool :=
  match attr.value with
  | .directive call _ => !registry.contains call.name
  | _ => true

/-- The element of a tag with the invocations of its directives. -/
def elementOfTag (registry : Registry) (tag : Tag) : Emit (Element Invocation) := do
  let invocations ← invokeAll registry tag.attributes
  let element : Element Invocation := { Element.ofName tag.name with attributes := tag.attributes }
  return invocations.foldl (fun element (invocation, priority) =>
    element.addInvocation invocation priority) element

/-! ### Tags -/

/-- Writes `body` unless the tags are left out. -/
def emitUnlessSkipped (skip : TagSkip) (body : Emit Unit) : Emit Unit :=
  match skip with
  | .when name => do
    modify (Session.startConditional name false)
    body
    modify Session.endConditional
  | _ => body

/-- Writes the name of a tag. -/
def emitTagName (name : String) (effect : Effect) : Emit Unit :=
  match effect.tagVariable with
  | some held => modify (Session.outVariable held)
  | none => modify (Session.outText name)

/-- Writes attributes, each between its hooks. -/
def emitAttributes (invocations : List Invocation) (attributes : List Attribute) : Emit Unit :=
  attributes.forM fun attr => do
    (Hook.beforeAttribute attr.name).run Invocation.run invocations
    attr.emit
    (Hook.afterAttribute attr.name).run Invocation.run invocations

/-- Writes a start tag. -/
def emitStartTag (registry : Registry) (tag : Tag) (invocations : List Invocation) (effect : Effect)
    (skip : TagSkip) : Emit Unit :=
  emitUnlessSkipped skip do
    modify (Session.outText "<")
    emitTagName tag.name effect
    Hook.beforeAttributes.run Invocation.run invocations
    emitAttributes invocations (tag.attributes.filter fun attr =>
      isWritten registry attr && !effect.overrides attr.name)
    Hook.afterAttributes.run Invocation.run invocations
    modify (Session.outText (if tag.selfClosing then "/>" else ">"))

/-- Writes an end tag. -/
def emitEndTag (tag : Tag) (effect : Effect) (skip : TagSkip) : Emit Unit :=
  emitUnlessSkipped skip do
    modify (Session.outText "</")
    emitTagName tag.name effect
    modify (Session.outText ">")

/-! ### Nodes -/

/-- Writes a comment, unless it is meant for the author only. -/
def emitComment (text : String) (here : Location) : Emit Unit := do
  if isAuthorComment text then return ()
  modify (Session.outText "<!--")
  emitInterpolated text (here.shift 4) (some .comment)
  modify (Session.outText "-->")

/-- Writes the start tag between its hooks. -/
def emitOpening (registry : Registry) (tag : Tag) (invocations : List Invocation) (effect : Effect)
    (skip : TagSkip) : Emit Unit := do
  if skip ≠ .always then
    Hook.beforeTagOpen.run Invocation.run invocations
    emitStartTag registry tag invocations effect skip
    Hook.afterTagOpen.run Invocation.run invocations

/-- Writes the content between its hooks, unless a directive writes it. -/
def emitContent (invocations : List Invocation) (effect : Effect) (content : Emit Unit) :
    Emit Unit := do
  Hook.beforeChildren.run Invocation.run invocations
  (if effect.replaces then pure () else content)
  Hook.afterChildren.run Invocation.run invocations

/-- Writes the end tag, if there is one, between its hooks. -/
def emitClosing (tag : Tag) (invocations : List Invocation) (effect : Effect) (skip : TagSkip) :
    Emit Unit := do
  if skip ≠ .always ∧ tag.hasEndTag ∧ !tag.selfClosing then
    Hook.beforeTagClose.run Invocation.run invocations
    emitEndTag tag effect skip
    Hook.afterTagClose.run Invocation.run invocations

/-- Writes the tags of an element around its content. -/
def emitTags (registry : Registry) (tag : Tag) (invocations : List Invocation)
    (content : Emit Unit) : Emit Unit := do
  let effect := Effect.all (invocations.map Invocation.effect)
  -- Without tags only the hooks around the element and its content run.
  let skip := if isBareElement tag.name then .always else effect.skip
  emitOpening registry tag invocations effect skip
  emitContent invocations effect content
  emitClosing tag invocations effect skip

/-- Writes an element around its content: its tags, and what its directives write. -/
def emitElement (registry : Registry) (tag : Tag) (content : Emit Unit) : Emit Unit := do
  let invocations := (← elementOfTag registry tag).composed
  if isRawTextElement tag.name then modify Session.enterRawText
  (Hook.beforeElement tag.name).run Invocation.run invocations
  emitTags registry tag invocations content
  Hook.afterElement.run Invocation.run invocations
  if isRawTextElement tag.name then modify Session.leaveRawText

mutual

/-- Writes a node with all below it. -/
def Node.emit (registry : Registry) : Node → Emit Unit
  | .text text here => emitInterpolated text here none
  | .comment text here => emitComment text here
  | .element tag children => emitElement registry tag (emitAll registry children)

/-- Writes nodes one after the other. -/
def emitAll (registry : Registry) : List Node → Emit Unit
  | [] => pure ()
  | node :: rest => do
    node.emit registry
    emitAll registry rest

end

/-- Writes a template. -/
def Template.emit (registry : Registry) (template : Template) : Emit Unit :=
  emitAll registry template.children

end Markup

end Stencil
