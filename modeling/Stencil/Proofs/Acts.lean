import Stencil.Proofs.Shown

/-!
# What a template does

Read off its tree, without names of variables, blocks or scopes: the values that a template writes,
the procedures that it calls and those that it defines, in the order in which they come.

On an element the directives count in order of priority. They define procedures around the element,
add attributes, and write or replace the content. The tags are written around the content unless
something leaves them out.

## Main definitions

* `Position`: where a value is written
* `Act`: something that a template does
* `Act.shown`: how commands show it
* `Occurrence`: a directive where it occurs
* `Markup.Template.acts`: what a template does
-/

namespace Stencil

/-- Where a value is written. -/
inductive Position where
  | content
  | comment
  | attributeValue (name : String)

/-- The placement of what is written at a position. -/
def Position.placement : Position → Placement
  | .content => .text
  | .comment => .comment
  | .attributeValue name => .ofAttribute name

/-- Something that a template does. -/
inductive Act where
  /-- Writes an expression, escaped for its position. -/
  | value (source : Written) (position : Position)
  /-- Writes an expression as the name of a tag; `tag` is the name that the tag has. -/
  | tagName (source : Written) (tag : String)
  /-- Writes the template that an expression names. -/
  | inclusion (source : Written)
  /-- Writes the resource that an expression names. -/
  | resource (source : Written)
  /-- Writes all attributes of a map. -/
  | attributeMap (source : Written)
  /-- Calls the procedure that an expression stands for. -/
  | call (source : Written)
  /-- Defines a procedure. -/
  | definition (name : String) (parameters : List String)

/-- The call of a runtime function on what the filters leave of an expression and its options. -/
def Written.insertion (filters : Pipeline) (function : String) (source : Written) : Term :=
  let value := source.filtered filters none
  .call function [value.root, .map value.options]

/-- How commands show an act: by what the filters leave of its expression. -/
def Act.shown (filters : Pipeline) : Act → Shown
  | .value source position =>
    .written (some (source.filtered filters (some position.placement)).root)
  | .tagName source tag =>
    let value := (source.filtered filters (some .elementName)).root
    .written (some (.choice value value (.text tag)))
  | .inclusion source => .written (some (source.insertion filters "include"))
  | .resource source => .written (some (source.insertion filters "resource"))
  | .attributeMap source =>
    .written (some (.call "attributeMap" [(source.filtered filters none).root]))
  | .call source =>
    let value := source.filtered filters none
    .called (some value.root) (some (.map value.options))
  | .definition name parameters => .defined name parameters

/-! ### Text with expressions -/

/-- What a fragment of a text does. -/
def Fragment.acts (position : Position) : Fragment → List Act
  | .text _ => []
  | .expression e here => [.value ⟨e, here⟩ position]

/-- What a text with expressions does; one that cannot be read does nothing. -/
def textActs (text : String) (here : Location) (position : Position) : List Act :=
  match Fragment.parse here text with
  | .ok fragments => fragments.flatMap (Fragment.acts position)
  | .error _ => []

/-- What an attribute does. -/
def Markup.Attribute.acts (attr : Attribute) : List Act :=
  match attr.value with
  | .absent => []
  | .literal text => textActs text attr.valueLocation (.attributeValue attr.name)
  | .directive _ e => [.value ⟨e, attr.valueLocation⟩ (.attributeValue attr.name)]

/-! ### Directives -/

/-- A directive where it occurs. -/
structure Occurrence where
  directive : Directive
  call : Markup.DirectiveCall
  source : Written

namespace Occurrence

variable (o : Occurrence)

/-- What a directive does around its element. -/
def elementActs : List Act :=
  match o.directive, o.call.identifier? with
  | .template, some name => [.definition name o.source.expression.options.names]
  | _, _ => []

/-- What a directive does after the attributes. -/
def attributeActs : List Act :=
  match o.directive, o.call.identifier? with
  | .attr, some target => [.value o.source (.attributeValue target)]
  | .attr, none => [.attributeMap o.source]
  | _, _ => []

/-- What a directive does before the content. -/
def contentActs : List Act :=
  match o.directive with
  | .call => [.call o.source]
  | .insertion => [.inclusion o.source]
  | .resource => [.resource o.source]
  | .text => [.value o.source .content]
  | _ => []

/-- The name that a directive gives to a tag. -/
def tagName? (tag : String) : Option Act :=
  match o.directive with
  | .element => some (.tagName o.source tag)
  | _ => none

/-- Whether a directive leaves out the tags in all cases. -/
def unwraps : Bool :=
  match o.directive, o.call.identifier? with
  | .template, some _ => true
  | .unwrap, _ => o.source.expression.root.isNull
  | _, _ => false

/-- Whether a directive writes an attribute in place of one that is there. -/
def overrides (name : String) : Bool :=
  match o.directive, o.call.identifier? with
  | .attr, some target => Text.eqIgnoringAsciiCase target name
  | _, _ => false

/-- Whether a directive stands for the content. -/
def replaces : Bool :=
  match o.directive with
  | .call | .insertion | .resource | .text => true
  | _ => false

end Occurrence

namespace Markup

/-- The directives among attributes, as they are written. -/
def occurrences (registry : Registry) (attributes : List Attribute) : List Occurrence :=
  attributes.filterMap fun attr =>
    match attr.value with
    | .directive call e =>
      (registry.find? call.name).map fun directive => ⟨directive, call, ⟨e, attr.location⟩⟩
    | _ => none

/-! ### Elements -/

/-- The directives of a tag, in order of priority. -/
def Tag.occurrences (registry : Registry) (tag : Tag) : List Occurrence :=
  Priority.sort (·.directive.priority) (Markup.occurrences registry tag.attributes)

/-- Whether the tags of an element are left out in all cases. -/
def Tag.isBare (registry : Registry) (tag : Tag) : Bool :=
  isBareElement tag.name || (tag.occurrences registry).any Occurrence.unwraps

/-- What the name of a tag does. -/
def Tag.nameActs (registry : Registry) (tag : Tag) : List Act :=
  ((tag.occurrences registry).findSome? (Occurrence.tagName? · tag.name)).toList

/-- What a start tag does. -/
def Tag.startActs (registry : Registry) (tag : Tag) : List Act :=
  let overridden name := (tag.occurrences registry).any (·.overrides name)
  tag.nameActs registry ++
    (tag.attributes.filter fun attr => isWritten registry attr && !overridden attr.name).flatMap
      Attribute.acts ++
    (tag.occurrences registry).flatMap Occurrence.attributeActs

/-- What the tags of an element do around its content, and its directives in place of it. -/
def Tag.insideActs (registry : Registry) (tag : Tag) (content : List Act) : List Act :=
  let found := tag.occurrences registry
  (if tag.isBare registry then [] else tag.startActs registry) ++
    found.flatMap Occurrence.contentActs ++
    (if found.any Occurrence.replaces then [] else content) ++
    (if tag.isBare registry || !tag.hasEndTag || tag.selfClosing then [] else tag.nameActs registry)

/-- What an element does around its content. -/
def Tag.acts (registry : Registry) (tag : Tag) (content : List Act) : List Act :=
  (tag.occurrences registry).flatMap Occurrence.elementActs ++ tag.insideActs registry content

mutual

/-- What a node does with all below it. -/
def Node.acts (registry : Registry) : Node → List Act
  | .text text here => textActs text here .content
  | .comment text here =>
    if isAuthorComment text then [] else textActs text (here.shift 4) .comment
  | .element tag children => tag.acts registry (actsAll registry children)

/-- What nodes do one after the other. -/
def actsAll (registry : Registry) : List Node → List Act
  | [] => []
  | node :: rest => node.acts registry ++ actsAll registry rest

end

/-- What a template does. -/
def Template.acts (registry : Registry) (template : Template) : List Act :=
  actsAll registry template.children

end Markup

end Stencil
