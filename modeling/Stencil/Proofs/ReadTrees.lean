import Stencil.Proofs.Boundaries
import Stencil.Proofs.ReadTerms

/-!
# What the reader of templates builds

Each attribute in the tree of a template comes from one that is written in a start tag. So what
holds of all attributes that can be written holds of all attributes of a template that is read.

## Main definitions

* `Markup.tagsOf`: the tags of a forest, in the order of the text
* `Builder.Takes`: what an event makes of a builder
* `Builder.Holds`: all attributes that a builder has taken have a property

## Main results

* `Template.forall_attributes_of_parse`: the attributes of a template that is read
* `Template.forall_directives_of_parse`: the expressions of its directives
-/

namespace Stencil.Markup

mutual

/-- The tags at and below a node. -/
def Node.tags : Node → List Tag
  | .text .. => []
  | .comment .. => []
  | .element tag children => tag :: tagsOf children

/-- The tags of a forest. -/
def tagsOf : List Node → List Tag
  | [] => []
  | node :: rest => node.tags ++ tagsOf rest

end

/-- The tags of a template. -/
def Template.tags (template : Template) : List Tag :=
  tagsOf template.children

theorem mem_tagsOf {tag : Tag} {nodes : List Node} :
    tag ∈ tagsOf nodes ↔ ∃ node ∈ nodes, tag ∈ node.tags := by
  induction nodes with
  | nil => simp [tagsOf]
  | cons node rest ih => simp [tagsOf, ih]

variable {P : Attribute → Prop}

/-- All attributes at and below a node have the property `P`. -/
def Node.Holds (P : Attribute → Prop) (node : Node) : Prop :=
  ∀ tag ∈ node.tags, ∀ attr ∈ tag.attributes, P attr

theorem Node.holds_element {tag : Tag} {children : List Node}
    (htag : ∀ attr ∈ tag.attributes, P attr) (hchildren : ∀ node ∈ children, node.Holds P) :
    (Node.element tag children).Holds P := by
  intro other hother
  rw [Node.tags, List.mem_cons] at hother
  rcases hother with rfl | hother
  · exact htag
  · obtain ⟨node, hnode, hother⟩ := mem_tagsOf.1 hother
    exact hchildren node hnode other hother

/-- An attribute that is no directive has its value as it is written. -/
theorem Attribute.ofWritten_of_none {written : WrittenAttribute}
    (h : DirectiveCall.ofAttributeName? written.name = none) :
    ofWritten written = .ok ⟨written.name, written.value.elim .absent .literal, written.quote,
      written.location⟩ := by
  unfold ofWritten
  simp only [h]
  cases written.value <;> rfl

/-- An attribute that is a directive has the expression of its value. -/
theorem Attribute.ofWritten_of_some {written : WrittenAttribute} {call : DirectiveCall}
    (h : DirectiveCall.ofAttributeName? written.name = some call) :
    ofWritten written =
      directiveExpression (Markup.valueLocation written.name written.quote written.location)
        written.value >>= fun e =>
          .ok ⟨written.name, .directive call e, written.quote, written.location⟩ := by
  unfold ofWritten
  simp only [h]
  rfl

/-- The expression of a directive without a value is null. If there is a value, it is the single
expression in it, or a text. -/
theorem directiveExpression_cases {here : Location} {value? : Option String} {e : Expression}
    (h : directiveExpression here value? = .ok e) :
    e = .ofRoot .null ∨ (∃ constant, e = .ofRoot (.text constant)) ∨
      ∃ text fragments place, Fragment.parse here text = .ok fragments ∧
        .expression e place ∈ fragments := by
  cases value? with
  | none => exact .inl (Except.ok.inj h).symm
  | some text =>
    obtain ⟨fragments, hfragments, h⟩ := exists_of_bind_eq_ok h
    split at h
    · next single? hsingle =>
      obtain rfl := Except.ok.inj h
      unfold Fragment.single? at hsingle
      split at hsingle
      · next place =>
        obtain rfl := Option.some.inj hsingle
        exact .inr (.inr ⟨text, _, place, hfragments, List.mem_singleton.2 rfl⟩)
      · cases hsingle
    · next constant _ _ => exact .inr (.inl ⟨constant, (Except.ok.inj h).symm⟩)
    · cases h

theorem forall_directiveExpression {Q : Term → Prop} (hQ : Term.Inherited Q) {here : Location}
    {value? : Option String} {e : Expression} (h : directiveExpression here value? = .ok e) :
    e.Forall Q := by
  rcases directiveExpression_cases h with
    rfl | ⟨constant, rfl⟩ | ⟨text, fragments, place, hfragments, hmem⟩
  · exact ⟨hQ.null, List.forall_mem_nil _⟩
  · exact ⟨hQ.text constant, List.forall_mem_nil _⟩
  · exact Fragment.forall_of_parse hQ hfragments e place hmem

/-- The attributes of a tag come one by one from those that are written. -/
theorem forall_of_mapM_ofWritten {written : List WrittenAttribute}
    (h : ∀ one ∈ written, ∀ attr, Attribute.ofWritten one = .ok attr → P attr)
    {attributes : List Attribute} (hread : written.mapM Attribute.ofWritten = .ok attributes) :
    ∀ attr ∈ attributes, P attr := by
  induction written generalizing attributes with
  | nil =>
    obtain rfl := Except.ok.inj hread
    exact List.forall_mem_nil _
  | cons first rest ih =>
    rw [List.mapM_cons] at hread
    obtain ⟨attr, hattr, hread⟩ := exists_of_bind_eq_ok hread
    obtain ⟨others, hothers, hread⟩ := exists_of_bind_eq_ok hread
    obtain rfl := Except.ok.inj hread
    obtain ⟨hfirst, hrest⟩ := List.forall_mem_cons.1 h
    exact List.forall_mem_cons.2 ⟨hfirst attr hattr, ih hrest hothers⟩

/-! ### Builders -/

namespace Builder

/-- What an event that is taken makes of a builder. -/
inductive Takes (b : Builder) : Event → Builder → Prop
  | text (text : String) (here : Location) :
    Takes b (.text text here) (b.attach (.text text here))
  | comment (text : String) (here : Location) :
    Takes b (.comment text here) (b.attach (.comment text here))
  | empty {tag : StartTag} {attributes : List Attribute}
    (hread : tag.attributes.mapM Attribute.ofWritten = .ok attributes)
    (hempty : (tag.selfClosing || isVoidElement tag.name) = true) :
    Takes b (.startTag tag)
      (b.attach (.element ⟨tag.name, attributes, tag.selfClosing, false, tag.location⟩ []))
  | opens {tag : StartTag} {attributes : List Attribute}
    (hread : tag.attributes.mapM Attribute.ofWritten = .ok attributes)
    (hopen : (tag.selfClosing || isVoidElement tag.name) = false) :
    Takes b (.startTag tag) ⟨⟨tag.name, attributes, tag.location, []⟩ :: b.opened, b.forest⟩
  | closes {inner : OpenElement} {outer : List OpenElement} {name : String} (here : Location)
    (hopened : b.opened = inner :: outer)
    (hname : Text.eqIgnoringAsciiCase inner.name name = true) :
    Takes b (.endTag name here) (attach ⟨outer, b.forest⟩ (closed inner))
  /-- An end tag that closes nothing may be one of an element without content. -/
  | voidEnd {name : String} (here : Location) (hname : isVoidElement name = true)
    (hinner : ∀ inner ∈ b.opened.head?, Text.eqIgnoringAsciiCase inner.name name = false) :
    Takes b (.endTag name here) b
  | finish (here : Location) (hopened : b.opened = []) : Takes b (.finish here) b

variable {b next : Builder} {event : Event}

theorem Takes.take_eq (h : b.Takes event next) : b.take event = .ok next := by
  cases h with
  | text | comment => rfl
  | empty hread hempty => simp only [take, takeStartTag, hread, hempty, if_true]
  | opens hread hopen =>
    simp only [take, takeStartTag, hread, hopen]
    rfl
  | closes here hopened hname => simp only [take, takeEndTag, hopened, hname, if_true]
  | voidEnd here hname hinner =>
    cases hopened : b.opened with
    | nil => simp only [take, takeEndTag, hopened, hname, if_true]
    | cons inner outer =>
      rw [hopened] at hinner
      simp [take, takeEndTag, hopened, hname, hinner inner rfl]
  | finish here hopened => simp only [take, hopened]

theorem takes_of_take (h : b.take event = .ok next) : b.Takes event next := by
  cases event with
  | text text here =>
    obtain rfl := Except.ok.inj h
    exact .text text here
  | comment text here =>
    obtain rfl := Except.ok.inj h
    exact .comment text here
  | startTag tag =>
    simp only [take, takeStartTag] at h
    split at h
    · cases h
    · next attributes hread =>
      split at h
      · next hempty =>
        obtain rfl := Except.ok.inj h
        exact .empty hread hempty
      · next hopen =>
        obtain rfl := Except.ok.inj h
        exact .opens hread (Bool.eq_false_iff.2 hopen)
  | endTag name here =>
    simp only [take, takeEndTag] at h
    cases hopened : b.opened with
    | nil =>
      simp only [hopened] at h
      split at h
      · next hvoid =>
        obtain rfl := Except.ok.inj h
        exact .voidEnd here hvoid (by simp [hopened])
      · cases h
    | cons inner outer =>
      simp only [hopened] at h
      split at h
      · next hname =>
        obtain rfl := Except.ok.inj h
        exact .closes here hopened hname
      · next hname =>
        split at h
        · next hvoid =>
          obtain rfl := Except.ok.inj h
          exact .voidEnd here hvoid (by simpa [hopened] using hname)
        · cases h
  | finish here =>
    simp only [take] at h
    split at h
    · next hopened =>
      obtain rfl := Except.ok.inj h
      exact .finish here hopened
    · cases h

theorem exists_of_takeAll_cons {rest : List Event} (h : b.takeAll (event :: rest) = .ok next) :
    ∃ between, b.Takes event between ∧ between.takeAll rest = .ok next := by
  rw [takeAll, List.foldlM_cons] at h
  obtain ⟨between, hbetween, hrest⟩ := exists_of_bind_eq_ok h
  exact ⟨between, takes_of_take hbetween, hrest⟩

/-- All attributes that a builder has taken have the property `P`. -/
structure Holds (P : Attribute → Prop) (b : Builder) : Prop where
  forest : ∀ node ∈ b.forest, node.Holds P
  attributes : ∀ element ∈ b.opened, ∀ attr ∈ element.attributes, P attr
  children : ∀ element ∈ b.opened, ∀ node ∈ element.children, node.Holds P

theorem holds_start : Holds P start := ⟨nofun, nofun, nofun⟩

theorem Holds.attach (hb : b.Holds P) {node : Node} (hnode : node.Holds P) :
    (b.attach node).Holds P := by
  obtain ⟨opened, forest⟩ := b
  cases opened with
  | nil => exact ⟨List.forall_mem_cons.2 ⟨hnode, hb.forest⟩, hb.attributes, hb.children⟩
  | cons inner outer =>
    have hattributes := List.forall_mem_cons.1 hb.attributes
    have hchildren := List.forall_mem_cons.1 hb.children
    exact ⟨hb.forest, List.forall_mem_cons.2 hattributes,
      List.forall_mem_cons.2 ⟨List.forall_mem_cons.2 ⟨hnode, hchildren.1⟩, hchildren.2⟩⟩

theorem Holds.takes (hb : b.Holds P)
    (h : ∀ tag, event = .startTag tag → ∀ written ∈ tag.attributes, ∀ attr,
      Attribute.ofWritten written = .ok attr → P attr)
    (htake : b.Takes event next) : next.Holds P := by
  cases htake with
  | text | comment => exact hb.attach nofun
  | @empty tag _ hread =>
    have hattributes := forall_of_mapM_ofWritten (h tag rfl) hread
    exact hb.attach (Node.holds_element hattributes (List.forall_mem_nil _))
  | @opens tag _ hread =>
    have hattributes := forall_of_mapM_ofWritten (h tag rfl) hread
    exact ⟨hb.forest, List.forall_mem_cons.2 ⟨hattributes, hb.attributes⟩,
      List.forall_mem_cons.2 ⟨List.forall_mem_nil _, hb.children⟩⟩
  | @closes inner outer _ _ hopened =>
    have hattributes := List.forall_mem_cons.1 (hopened ▸ hb.attributes)
    have hchildren := List.forall_mem_cons.1 (hopened ▸ hb.children)
    -- The children were kept nearest first, which does not matter here.
    have hclosed : (closed inner).Holds P := Node.holds_element hattributes.1
      fun node hnode => hchildren.1 node (List.mem_reverse.1 hnode)
    have houter : Holds P ⟨outer, b.forest⟩ := ⟨hb.forest, hattributes.2, hchildren.2⟩
    exact houter.attach hclosed
  | voidEnd | finish => exact hb

/-- Taking events keeps what holds of all attributes that are written in their tags. -/
theorem Holds.takeAll (hb : b.Holds P) {events : List Event}
    (h : ∀ tag, .startTag tag ∈ events → ∀ written ∈ tag.attributes, ∀ attr,
      Attribute.ofWritten written = .ok attr → P attr)
    (htake : b.takeAll events = .ok next) : next.Holds P := by
  induction events generalizing b with
  | nil =>
    obtain rfl := Except.ok.inj htake
    exact hb
  | cons event rest ih =>
    obtain ⟨between, hevent, hrest⟩ := exists_of_takeAll_cons htake
    have hfirst := hb.takes (fun tag htag => h tag (htag ▸ List.mem_cons_self)) hevent
    exact ih hfirst (fun tag htag => h tag (List.mem_cons_of_mem _ htag)) hrest

end Builder

/-! ### Templates -/

namespace Template

theorem Reader.holds_take (h : ∀ written attr, Attribute.ofWritten written = .ok attr → P attr)
    {r next : Reader} (hr : r.builder.Holds P) {text : List Char}
    (htake : r.take text = .ok next) : next.builder.Holds P := by
  obtain ⟨builder, hbuilder, htake⟩ := exists_of_bind_eq_ok htake
  split at htake
  · cases htake
  · obtain rfl := Except.ok.inj htake
    exact hr.takeAll (fun _ _ written _ => h written) hbuilder

/-- What holds of all attributes that can be written holds of those of a template that is read. -/
theorem forall_attributes_of_parse
    (h : ∀ written attr, Attribute.ofWritten written = .ok attr → P attr) {size : Nat}
    {bytes : List UInt8} {template : Template} (hparse : parse size bytes = .ok template) :
    ∀ tag ∈ template.tags, ∀ attr ∈ tag.attributes, P attr := by
  unfold parse ofPieces at hparse
  simp only [Reader.foldlM_take] at hparse
  obtain ⟨reader, hreader, hparse⟩ := exists_of_bind_eq_ok hparse
  split at hparse
  · cases hparse
  · unfold Reader.finish at hparse
    split at hparse
    · cases hparse
    · obtain ⟨builder, hbuilder, hparse⟩ := exists_of_bind_eq_ok hparse
      obtain rfl := Except.ok.inj hparse
      have hholds := (Reader.holds_take h Builder.holds_start hreader).takeAll
        (fun _ _ written _ => h written) hbuilder
      intro tag htag
      obtain ⟨node, hnode, htag⟩ := mem_tagsOf.1 htag
      exact hholds.forest node (List.mem_reverse.1 hnode) tag htag

/-- An inherited property holds of the expressions of the directives of a template that is read. -/
theorem forall_directives_of_parse {Q : Term → Prop} (hQ : Term.Inherited Q) {size : Nat}
    {bytes : List UInt8} {template : Template} (hparse : parse size bytes = .ok template) :
    ∀ tag ∈ template.tags, ∀ attr ∈ tag.attributes, ∀ call e, attr.value = .directive call e →
      e.Forall Q := by
  refine forall_attributes_of_parse (fun written attr hread => ?_) hparse
  intro call e hvalue
  cases hname : DirectiveCall.ofAttributeName? written.name with
  | none =>
    rw [Attribute.ofWritten_of_none hname] at hread
    obtain rfl := Except.ok.inj hread
    cases hwritten : written.value <;> rw [hwritten] at hvalue <;> cases hvalue
  | some found =>
    rw [Attribute.ofWritten_of_some hname] at hread
    obtain ⟨expression, hexpression, hread⟩ := exists_of_bind_eq_ok hread
    obtain rfl := Except.ok.inj hread
    obtain ⟨-, rfl⟩ := AttributeValue.directive.inj hvalue
    exact forall_directiveExpression hQ hexpression

end Template

end Stencil.Markup
