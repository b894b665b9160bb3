import Mathlib.Data.List.Infix
import Mathlib.Tactic.MkIffOfInductiveProp
import Stencil.Markup.Scanner
import Stencil.Markup.Tree

/-!
# Canonical markup

Markup without expressions and directives has a written form, which says where each part of the tree
stands. A tree is canonical if its written form leaves no doubt about the tree: texts are not empty
and do not follow each other, names are names, and quotes, comments and raw text end where they are
meant to end.

## Main definitions

* `Node.render`, `renderAll`: the written form of markup
* `Node.placed`, `placedAll`: markup with the locations at which its written form has its parts
* `Node.Canonical`, `CanonicalAll`: markup that can be read from its written form
-/

namespace Stencil.Markup

/-! ### Written forms -/

/-- The text of a value that is written between quotes. -/
def AttributeValue.text? : AttributeValue → Option String
  | .literal text => some text
  | _ => none

/-- The written form of an attribute that is no directive. -/
def Attribute.render (attr : Attribute) : List Char :=
  ' ' :: attr.name.toList ++
    match attr.value.text? with
    | some text => '=' :: attr.quote.toList ++ text.toList ++ attr.quote.toList
    | none => []

namespace Tag

/-- The written form of a start tag. -/
def renderStart (tag : Tag) : List Char :=
  '<' :: tag.name.toList ++ tag.attributes.flatMap Attribute.render ++
    if tag.selfClosing then ['/', '>'] else ['>']

/-- The written form of an end tag. -/
def renderEnd (tag : Tag) : List Char :=
  if tag.hasEndTag then '<' :: '/' :: tag.name.toList ++ ['>'] else []

end Tag

mutual

/-- The written form of a node. -/
def Node.render : Node → List Char
  | .text text _ => text.toList
  | .comment text _ => ['<', '!', '-', '-'] ++ text.toList ++ ['-', '-', '>']
  | .element tag children => tag.renderStart ++ renderAll children ++ tag.renderEnd

/-- The written form of a forest. -/
def renderAll : List Node → List Char
  | [] => []
  | node :: rest => node.render ++ renderAll rest

end

/-! ### Locations -/

/-- Attributes where their written form has them, which begins at `here`. -/
def placedAttributes (here : Location) : List Attribute → List Attribute
  | [] => []
  | attr :: rest =>
    { attr with location := here.next ' ' } :: placedAttributes (here.advance attr.render) rest

/-- A tag whose written form begins at `here`. -/
def Tag.placed (here : Location) (tag : Tag) : Tag :=
  { tag with
    attributes := placedAttributes (here.advance ('<' :: tag.name.toList)) tag.attributes
    location := here }

mutual

/-- A node whose written form begins at `here`. -/
def Node.placed (here : Location) : Node → Node
  | .text text _ => .text text here
  | .comment text _ => .comment text here
  | .element tag children =>
    .element (tag.placed here) (placedAll (here.advance tag.renderStart) children)

/-- A forest whose written form begins at `here`. -/
def placedAll (here : Location) : List Node → List Node
  | [] => []
  | node :: rest => node.placed here :: placedAll (here.advance node.render) rest

end

/-! ### Canonical markup -/

/-- Text in which no expression begins. -/
def IsLiteral (text : List Char) : Prop :=
  ¬ ['$', '\x7b'] <:+: text

instance : DecidablePred IsLiteral :=
  fun text => inferInstanceAs (Decidable (¬ ['$', '\x7b'] <:+: text))

/-- Whether a character can stand in the name of an attribute. -/
def continuesAttributeName (c : Char) : Bool :=
  !(Text.isBlank c || ['>', '/', '"', '\'', '<', '='].contains c)

/-- A value is missing, or stands between quotes that it does not hold. -/
def AttributeValue.Canonical : AttributeValue → Option Char → Prop
  | .absent, none => True
  | .literal text, some quote =>
    (quote = '"' ∨ quote = '\'') ∧ quote ∉ text.toList ∧ IsLiteral text.toList
  | _, _ => False

instance (value : AttributeValue) (quote? : Option Char) : Decidable (value.Canonical quote?) :=
  match value, quote? with
  | .absent, none => inferInstanceAs (Decidable True)
  | .absent, some _ => inferInstanceAs (Decidable False)
  | .literal _, none => inferInstanceAs (Decidable False)
  | .literal text, some quote => inferInstanceAs
    (Decidable ((quote = '"' ∨ quote = '\'') ∧ quote ∉ text.toList ∧ IsLiteral text.toList))
  | .directive .., _ => inferInstanceAs (Decidable False)

/-- An attribute that is no directive, with a name and a value that end where they are meant to
end. -/
@[mk_iff]
structure Attribute.Canonical (attr : Attribute) : Prop where
  name_ne_nil : attr.name.toList ≠ []
  name_continues : attr.name.toList.all continuesAttributeName = true
  /-- The name does not begin like that of a directive, in whichever case its letters are. -/
  name_free : ¬ directiveStart.toList <+: attr.name.toList.map Char.toLower
  value : attr.value.Canonical attr.quote

instance (attr : Attribute) : Decidable attr.Canonical :=
  decidable_of_iff' _ (Attribute.canonical_iff attr)

/-- A tag with a name, other than that of the element without tags, and canonical attributes. -/
@[mk_iff]
structure Tag.Canonical (tag : Tag) : Prop where
  name_begins : tag.name.toList.head?.any Text.isAlphabetic = true
  name_continues : tag.name.toList.tail.all continuesTagName = true
  not_bare : isBareElement tag.name = false
  attributes : ∀ attr ∈ tag.attributes, attr.Canonical

instance (tag : Tag) : Decidable tag.Canonical :=
  decidable_of_iff' _ (Tag.canonical_iff tag)

/-- Whether a node is a text. -/
def Node.isText : Node → Bool
  | .text .. => true
  | _ => false

/-- A text in the raw text element `name`: it does not hold the beginning of the end tag, in
whichever case the letters are. -/
def Node.RawText (name : String) : Node → Prop
  | .text content _ =>
    content.toList ≠ [] ∧ IsLiteral content.toList ∧
      ¬ '<' :: '/' :: name.toList.map Char.toLower <:+: content.toList.map Char.toLower
  | _ => False

instance (name : String) : DecidablePred (Node.RawText name)
  | .text content _ => inferInstanceAs (Decidable (content.toList ≠ [] ∧ IsLiteral content.toList ∧
      ¬ '<' :: '/' :: name.toList.map Char.toLower <:+: content.toList.map Char.toLower))
  | .comment .. | .element .. => inferInstanceAs (Decidable False)

/-- The content of the raw text element `name`: at most one text. -/
def RawContent (name : String) (nodes : List Node) : Prop :=
  nodes.length ≤ 1 ∧ ∀ node ∈ nodes, node.RawText name

instance (name : String) : DecidablePred (RawContent name) :=
  fun nodes => inferInstanceAs (Decidable (nodes.length ≤ 1 ∧ ∀ node ∈ nodes, node.RawText name))

mutual

/-- A node that can be read from its written form. An element has an end tag unless it is written
with a slash or cannot have content. -/
def Node.Canonical : Node → Prop
  | .text text _ => text.toList ≠ [] ∧ '<' ∉ text.toList ∧ IsLiteral text.toList
  | .comment text _ =>
    ¬ ['-', '-', '>'] <:+: text.toList ∧ IsLiteral text.toList ∧ isAuthorComment text = false
  | .element tag children =>
    tag.Canonical ∧
      if tag.hasEndTag then
        (tag.selfClosing = false ∧ isVoidElement tag.name = false) ∧
          if isRawTextElement tag.name then RawContent tag.name children else CanonicalAll children
      else (tag.selfClosing = true ∨ isVoidElement tag.name = true) ∧ children.isEmpty = true

/-- A forest that can be read from its written form: a text does not follow a text. -/
def CanonicalAll : List Node → Prop
  | [] => True
  | node :: rest =>
    node.Canonical ∧ CanonicalAll rest ∧ ¬ (node.isText = true ∧ rest.head?.any Node.isText = true)

end

mutual

/-- Whether a node is canonical can be decided. -/
def Node.decidableCanonical : (node : Node) → Decidable node.Canonical
  | .text text _ =>
    inferInstanceAs (Decidable (text.toList ≠ [] ∧ '<' ∉ text.toList ∧ IsLiteral text.toList))
  | .comment text _ => inferInstanceAs (Decidable
      (¬ ['-', '-', '>'] <:+: text.toList ∧ IsLiteral text.toList ∧ isAuthorComment text = false))
  | .element tag children =>
    have : Decidable (CanonicalAll children) := decidableCanonicalAll children
    inferInstanceAs (Decidable (tag.Canonical ∧
      if tag.hasEndTag then
        (tag.selfClosing = false ∧ isVoidElement tag.name = false) ∧
          if isRawTextElement tag.name then RawContent tag.name children else CanonicalAll children
      else (tag.selfClosing = true ∨ isVoidElement tag.name = true) ∧ children.isEmpty = true))

/-- Whether a forest is canonical can be decided. -/
def decidableCanonicalAll : (nodes : List Node) → Decidable (CanonicalAll nodes)
  | [] => inferInstanceAs (Decidable True)
  | node :: rest =>
    have : Decidable node.Canonical := node.decidableCanonical
    have : Decidable (CanonicalAll rest) := decidableCanonicalAll rest
    inferInstanceAs (Decidable (node.Canonical ∧ CanonicalAll rest ∧
      ¬ (node.isText = true ∧ rest.head?.any Node.isText = true)))

end

instance : DecidablePred CanonicalAll := decidableCanonicalAll

end Stencil.Markup
