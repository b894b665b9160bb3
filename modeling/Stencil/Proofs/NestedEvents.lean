import Mathlib.Data.List.Forall2
import Stencil.Proofs.ReadBack

/-!
# Nested events

The builder accepts exactly the events whose tags match: each start tag of an element with content
has its end tag, with the same name up to the case of ASCII letters, and what stands between the two
matches as well. The tree then holds the events in their order. Only end tags of elements that have
no content are left out, since they may stand anywhere.

## Main definitions

* `Nested`: the events whose tags match
* `Mark`: a tag, a text or a comment of a tree; `marksOf` lists those of a forest in their order
* `Nested.Spine`: the events up to some point, with the elements that are open there

## Main results

* `Nested.exists_takeAll`: the builder takes nested events, and keeps them in their order
* `Nested.Spine.take`: what one event makes of the open elements
* `Builder.takeAll_finish_iff`: what the builder accepts, and the tree that it gives
-/

namespace Stencil.Markup

/-- Whether the element of a start tag ends with the tag. -/
def StartTag.isEmpty (tag : StartTag) : Bool :=
  tag.selfClosing || isVoidElement tag.name

/-- Whether an event is the end tag of an element that has no content. -/
def Event.isVoidEnd : Event → Bool
  | .endTag name _ => isVoidElement name
  | _ => false

/-- Whether an event is the end of a text. -/
def Event.isFinish : Event → Bool
  | .finish _ => true
  | _ => false

/-- The events whose tags match. -/
inductive Nested : List Event → Prop where
  | nil : Nested []
  | text (text : String) (here : Location) {rest : List Event} (hrest : Nested rest) :
      Nested (.text text here :: rest)
  | comment (text : String) (here : Location) {rest : List Event} (hrest : Nested rest) :
      Nested (.comment text here :: rest)
  | empty {tag : StartTag} {rest : List Event} (htag : tag.isEmpty = true) (hrest : Nested rest) :
      Nested (.startTag tag :: rest)
  | voidEnd {name : String} (here : Location) {rest : List Event}
      (hname : isVoidElement name = true) (hrest : Nested rest) :
      Nested (.endTag name here :: rest)
  | element {tag : StartTag} {name : String} (here : Location) {body rest : List Event}
      (htag : tag.isEmpty = false) (hname : Text.eqIgnoringAsciiCase tag.name name = true)
      (hbody : Nested body) (hrest : Nested rest) :
      Nested (.startTag tag :: (body ++ .endTag name here :: rest))

theorem Nested.append {first second : List Event} (hfirst : Nested first)
    (hsecond : Nested second) : Nested (first ++ second) := by
  induction hfirst with
  | nil => exact hsecond
  | text text here _ ih => exact .text text here ih
  | comment text here _ ih => exact .comment text here ih
  | empty htag _ ih => exact .empty htag ih
  | voidEnd here hname _ ih => exact .voidEnd here hname ih
  | element here htag hname hbody _ _ ih =>
    rw [List.cons_append, List.append_assoc]
    exact .element here htag hname hbody ih

/-! ### The order of a tree -/

/-- A part of a tree as it stands in the order of the text. -/
inductive Mark where
  | text (text : String) (location : Location)
  | comment (text : String) (location : Location)
  | start (tag : Tag)
  | close (tag : Tag)

mutual

/-- The marks of a node: an element's children stand between its start and its end. -/
def Node.marks : Node → List Mark
  | .text text here => [.text text here]
  | .comment text here => [.comment text here]
  | .element tag children =>
    .start tag :: (marksOf children ++ if tag.hasEndTag then [.close tag] else [])

/-- The marks of a forest. -/
def marksOf : List Node → List Mark
  | [] => []
  | node :: rest => node.marks ++ marksOf rest

end

theorem marksOf_element {tag : Tag} (h : tag.hasEndTag = true) (children rest : List Node) :
    marksOf (.element tag children :: rest) =
      .start tag :: (marksOf children ++ .close tag :: marksOf rest) := by
  simp [marksOf, Node.marks, h]

/-- An attribute of a tree is the one that is written: a directive has the expression of its value,
and other attributes have the value itself. -/
def WrittenAttribute.ShownBy (written : WrittenAttribute) (attr : Attribute) : Prop :=
  attr.name = written.name ∧ attr.quote = written.quote ∧ attr.location = written.location ∧
    match DirectiveCall.ofAttributeName? written.name with
    | none => attr.value = written.value.elim .absent .literal
    | some call => ∃ e, attr.value = .directive call e ∧
      directiveExpression (valueLocation written.name written.quote written.location)
        written.value = .ok e

/-- A mark of a tree comes from an event. An end tag is known by its name, up to case. -/
def Event.ShownBy : Event → Mark → Prop
  | .text written here, .text shown place => shown = written ∧ place = here
  | .comment written here, .comment shown place => shown = written ∧ place = here
  | .startTag written, .start tag =>
    tag.name = written.name ∧ tag.selfClosing = written.selfClosing ∧
      tag.location = written.location ∧
      List.Forall₂ WrittenAttribute.ShownBy written.attributes tag.attributes
  | .endTag name _, .close tag => Text.eqIgnoringAsciiCase tag.name name = true
  | _, _ => False

/-! ### Valid directives -/

/-- The value of an attribute is valid if it is no directive or holds an expression. -/
def WrittenAttribute.Valid (written : WrittenAttribute) : Prop :=
  ∀ call, DirectiveCall.ofAttributeName? written.name = some call →
    ∃ e, directiveExpression (valueLocation written.name written.quote written.location)
      written.value = .ok e

/-- The attributes of an event are valid. -/
def Event.Valid : Event → Prop
  | .startTag tag => ∀ written ∈ tag.attributes, written.Valid
  | _ => True

theorem WrittenAttribute.Valid.exists_ofWritten {written : WrittenAttribute}
    (h : written.Valid) :
    ∃ attr, Attribute.ofWritten written = .ok attr ∧ written.ShownBy attr := by
  cases hname : DirectiveCall.ofAttributeName? written.name with
  | none =>
    refine ⟨_, Attribute.ofWritten_of_none hname, rfl, rfl, rfl, ?_⟩
    rw [hname]
  | some call =>
    obtain ⟨e, he⟩ := h call hname
    refine ⟨_, (Attribute.ofWritten_of_some hname).trans (by rw [he]; rfl), rfl, rfl, rfl, ?_⟩
    rw [hname]
    exact ⟨e, rfl, he⟩

theorem exists_mapM_ofWritten {written : List WrittenAttribute} (h : ∀ one ∈ written, one.Valid) :
    ∃ attributes, written.mapM Attribute.ofWritten = .ok attributes ∧
      List.Forall₂ WrittenAttribute.ShownBy written attributes := by
  induction written with
  | nil => exact ⟨[], rfl, .nil⟩
  | cons first rest ih =>
    obtain ⟨hfirst, hrest⟩ := List.forall_mem_cons.1 h
    obtain ⟨attr, hattr, hshown⟩ := hfirst.exists_ofWritten
    obtain ⟨attributes, hattributes, hall⟩ := ih hrest
    refine ⟨attr :: attributes, ?_, .cons hshown hall⟩
    rw [List.mapM_cons, hattr, hattributes]
    rfl

/-! ### Taking nested events -/

theorem isVoidElement_of_eq {name other : String}
    (h : Text.eqIgnoringAsciiCase name other = true) :
    isVoidElement name = isVoidElement other := by
  rw [Text.eqIgnoringAsciiCase, decide_eq_true_eq] at h
  simp only [isVoidElement, isOneOf, Text.eqIgnoringAsciiCase, h]

namespace Builder

variable {b next : Builder} {event : Event} {rest : List Event} {tag : StartTag} {name : String}

theorem takeAll_cons_of_ok (h : b.take event = .ok next) :
    b.takeAll (event :: rest) = next.takeAll rest := by
  rw [takeAll, List.foldlM_cons, h]
  rfl

/-- A start tag with valid attributes attaches its element or opens it. -/
theorem exists_take_startTag (b : Builder) (h : ∀ written ∈ tag.attributes, written.Valid) :
    ∃ attributes, List.Forall₂ WrittenAttribute.ShownBy tag.attributes attributes ∧
      b.take (.startTag tag) = if tag.isEmpty then
          .ok (b.attach (.element ⟨tag.name, attributes, tag.selfClosing, false, tag.location⟩ []))
        else .ok ⟨⟨tag.name, attributes, tag.location, []⟩ :: b.opened, b.forest⟩ := by
  obtain ⟨attributes, hread, hshown⟩ := exists_mapM_ofWritten h
  refine ⟨attributes, hshown, ?_⟩
  simp only [take, takeStartTag, hread]
  rfl

/-- The elements that are open can have content. -/
def Solid (b : Builder) : Prop :=
  ∀ element ∈ b.opened, isVoidElement element.name = false

theorem Solid.attach (hb : b.Solid) (node : Node) : (b.attach node).Solid := by
  obtain ⟨opened, forest⟩ := b
  cases opened with
  | nil => exact hb
  | cons inner outer =>
    exact List.forall_mem_cons.2 (List.forall_mem_cons.1 hb)

/-- No open element has the end tag of an element without content. -/
theorem Solid.take_endTag (hb : b.Solid) (h : isVoidElement name = true) (here : Location) :
    b.take (.endTag name here) = .ok b := by
  refine (Takes.voidEnd here h fun inner hinner => ?_).take_eq
  -- The innermost element has content, so its name is another one.
  have hcontent : isVoidElement inner.name = false := hb inner (List.mem_of_mem_head? hinner)
  refine Bool.eq_false_iff.2 fun heq => ?_
  rw [isVoidElement_of_eq heq, h] at hcontent
  cases hcontent

end Builder

/-- A start tag, events inside and the end tag attach an element with the nodes of these events. -/
theorem Builder.takeAll_element {b : Builder} {tag : StartTag} {attributes : List Attribute}
    {children : List Node} {name : String} {body rest : List Event} (here : Location)
    (hopen : b.take (.startTag tag) =
      .ok ⟨⟨tag.name, attributes, tag.location, []⟩ :: b.opened, b.forest⟩)
    (hbody : takeAll ⟨⟨tag.name, attributes, tag.location, []⟩ :: b.opened, b.forest⟩ body =
      .ok (attachAll ⟨⟨tag.name, attributes, tag.location, []⟩ :: b.opened, b.forest⟩ children))
    (hname : Text.eqIgnoringAsciiCase tag.name name = true) :
    b.takeAll (.startTag tag :: (body ++ .endTag name here :: rest)) =
      (b.attach (.element ⟨tag.name, attributes, false, true, tag.location⟩ children)).takeAll
        rest := by
  rw [takeAll_cons_of_ok hopen, takeAll_append, hbody, attachAll_opened]
  have hclose : Takes
      ⟨⟨tag.name, attributes, tag.location, children.reverse ++ []⟩ :: b.opened, b.forest⟩
      (.endTag name here) _ := .closes here rfl hname
  refine (takeAll_cons_of_ok hclose.take_eq).trans ?_
  simp [closed]

theorem StartTag.isVoidElement_of_isEmpty {tag : StartTag} (h : tag.isEmpty = false) :
    tag.selfClosing = false ∧ isVoidElement tag.name = false :=
  Bool.or_eq_false_iff.1 h

/-- The builder takes nested events with valid directives. It attaches nodes that show them in their
order. -/
theorem Nested.exists_takeAll {events : List Event} (h : Nested events)
    (hvalid : ∀ event ∈ events, event.Valid) {b : Builder} (hb : b.Solid) :
    ∃ nodes, b.takeAll events = .ok (b.attachAll nodes) ∧
      List.Forall₂ Event.ShownBy (events.filter fun event => !event.isVoidEnd) (marksOf nodes) := by
  induction h generalizing b with
  | nil => exact ⟨[], rfl, .nil⟩
  | text text here _ ih =>
    obtain ⟨nodes, htake, hshown⟩ :=
      ih (List.forall_mem_cons.1 hvalid).2 (hb.attach (.text text here))
    exact ⟨.text text here :: nodes, htake, .cons ⟨rfl, rfl⟩ hshown⟩
  | comment text here _ ih =>
    obtain ⟨nodes, htake, hshown⟩ :=
      ih (List.forall_mem_cons.1 hvalid).2 (hb.attach (.comment text here))
    exact ⟨.comment text here :: nodes, htake, .cons ⟨rfl, rfl⟩ hshown⟩
  | @empty tag rest htag _ ih =>
    obtain ⟨hfirst, hrest⟩ := List.forall_mem_cons.1 hvalid
    obtain ⟨attributes, hattributes, htake⟩ := b.exists_take_startTag hfirst
    rw [if_pos htag] at htake
    obtain ⟨nodes, hnodes, hshown⟩ := ih hrest (hb.attach _)
    refine ⟨_ :: nodes, (Builder.takeAll_cons_of_ok htake).trans hnodes, ?_⟩
    exact .cons ⟨rfl, rfl, rfl, hattributes⟩ hshown
  | voidEnd here hname _ ih =>
    obtain ⟨nodes, hnodes, hshown⟩ := ih (List.forall_mem_cons.1 hvalid).2 hb
    refine ⟨nodes, (Builder.takeAll_cons_of_ok (hb.take_endTag hname here)).trans hnodes, ?_⟩
    rwa [List.filter_cons_of_neg (by simp [Event.isVoidEnd, hname])]
  | @element tag name here body rest htag hname _ _ ihbody ihrest =>
    obtain ⟨hfirst, hvalid⟩ := List.forall_mem_cons.1 hvalid
    obtain ⟨hbody, hvalid⟩ := List.forall_mem_append.1 hvalid
    obtain ⟨-, hrest⟩ := List.forall_mem_cons.1 hvalid
    obtain ⟨hslash, hvoid⟩ := tag.isVoidElement_of_isEmpty htag
    obtain ⟨attributes, hattributes, hopen⟩ := b.exists_take_startTag hfirst
    rw [if_neg (by simp [htag])] at hopen
    -- Inside the element its nodes are gathered, and the end tag attaches it with them.
    have hinside : Builder.Solid ⟨⟨tag.name, attributes, tag.location, []⟩ :: b.opened, b.forest⟩ :=
      List.forall_mem_cons.2 ⟨hvoid, hb⟩
    obtain ⟨children, hchildren, hinner⟩ := ihbody hbody hinside
    obtain ⟨nodes, hnodes, hshown⟩ := ihrest hrest (hb.attach
      (.element ⟨tag.name, attributes, false, true, tag.location⟩ children))
    refine ⟨.element ⟨tag.name, attributes, false, true, tag.location⟩ children :: nodes,
      (Builder.takeAll_element here hopen hchildren hname).trans hnodes, ?_⟩
    have hend : Event.isVoidEnd (.endTag name here) = false :=
      (isVoidElement_of_eq hname).symm.trans hvoid
    rw [List.filter_cons_of_pos rfl, List.filter_append,
      List.filter_cons_of_pos (by rw [hend]; rfl), marksOf_element rfl]
    exact .cons ⟨rfl, hslash.symm, rfl, hattributes⟩ (List.rel_append hinner (.cons hname hshown))

/-! ### Events up to some point -/

/-- The events up to a point where the elements `names` are open, innermost first: before the start
tag of each of them stands what is outside, and behind it what has come to its end inside. -/
inductive Nested.Spine : List String → List Event → Prop where
  | top {events : List Event} (h : Nested events) : Spine [] events
  | inside {names : List String} {before inner : List Event} {tag : StartTag}
      (hbefore : Spine names before) (htag : tag.isEmpty = false) (hinner : Nested inner) :
      Spine (tag.name :: names) (before ++ .startTag tag :: inner)

namespace Nested.Spine

variable {names : List String} {events more : List Event}

theorem append (h : Spine names events) (hmore : Nested more) : Spine names (events ++ more) := by
  cases h with
  | top h => exact .top (h.append hmore)
  | inside hbefore htag hinner =>
    rw [List.append_assoc]
    exact .inside hbefore htag (hinner.append hmore)

end Nested.Spine

namespace Builder

/-- The names of the open elements, innermost first. -/
def openNames (b : Builder) : List String :=
  b.opened.map (·.name)

@[simp] theorem openNames_attach (b : Builder) (node : Node) :
    (b.attach node).openNames = b.openNames := by
  obtain ⟨opened, forest⟩ := b
  cases opened <;> rfl

end Builder

/-- What one event makes of the open elements. -/
theorem Nested.Spine.take {b next : Builder} {events : List Event} {event : Event}
    (h : Spine b.openNames events) (hfinish : event.isFinish = false)
    (htake : b.Takes event next) : Spine next.openNames (events ++ [event]) := by
  cases htake with
  | text text here =>
    rw [Builder.openNames_attach]
    exact h.append (.text text here .nil)
  | comment text here =>
    rw [Builder.openNames_attach]
    exact h.append (.comment text here .nil)
  | empty _ hempty =>
    rw [Builder.openNames_attach]
    exact h.append (.empty hempty .nil)
  | opens _ hopen => exact .inside h hopen .nil
  | @closes inner outer name here hopened hname =>
    rw [Builder.openNames_attach]
    -- The innermost element is complete, and is nested in what stands around it.
    have hspine : Spine (inner.name :: outer.map (·.name)) events := by
      rwa [Builder.openNames, hopened] at h
    generalize inner.name = innerName at hspine hname
    cases hspine with
    | inside hbefore htag hbody =>
      rw [List.append_assoc]
      exact hbefore.append (.element here htag hname hbody .nil)
  | voidEnd here hvoid => exact h.append (.voidEnd here hvoid .nil)
  | finish => cases hfinish

/-- What events make of the open elements. -/
theorem Nested.Spine.takeAll {b last : Builder} {events more : List Event}
    (h : Spine b.openNames events) (hfinish : ∀ event ∈ more, event.isFinish = false)
    (htake : b.takeAll more = .ok last) : Spine last.openNames (events ++ more) := by
  induction more generalizing b events with
  | nil =>
    obtain rfl := Except.ok.inj htake
    rwa [List.append_nil]
  | cons event rest ih =>
    obtain ⟨hevent, hrest⟩ := List.forall_mem_cons.1 hfinish
    obtain ⟨next, hnext, htake⟩ := Builder.exists_of_takeAll_cons htake
    rw [List.append_cons]
    exact ih (h.take hevent hnext) hrest htake

namespace Builder

/-- At the end of the text all elements have to be closed. -/
theorem takeAll_finish {events : List Event} {here : Location} {b : Builder} :
    start.takeAll (events ++ [.finish here]) = .ok b ↔
      start.takeAll events = .ok b ∧ b.opened = [] := by
  rw [takeAll_append]
  cases start.takeAll events with
  | error failure => exact ⟨nofun, nofun⟩
  | ok last =>
    obtain ⟨opened, forest⟩ := last
    cases opened with
    | nil =>
      refine ⟨fun h => ⟨h, ?_⟩, fun h => h.1⟩
      obtain rfl := Except.ok.inj h
      rfl
    | cons inner outer =>
      refine ⟨nofun, fun h => ?_⟩
      obtain ⟨h, hopened⟩ := h
      obtain rfl := Except.ok.inj h
      cases hopened

/-- Events up to the end of the text, whose directives are valid, are accepted if and only if they
are nested. The tree that is built holds them all in their order, except for the end tags of
elements without content. -/
theorem takeAll_finish_iff {events : List Event} (here : Location)
    (hfinish : ∀ event ∈ events, event.isFinish = false)
    (hvalid : ∀ event ∈ events, event.Valid) :
    ((∃ b, start.takeAll (events ++ [.finish here]) = .ok b) ↔ Nested events) ∧
      ∀ b, start.takeAll (events ++ [.finish here]) = .ok b →
        List.Forall₂ Event.ShownBy (events.filter fun event => !event.isVoidEnd)
          (marksOf b.tree) := by
  have hnested : ∀ b, start.takeAll (events ++ [.finish here]) = .ok b → Nested events := by
    intro b hb
    obtain ⟨htake, hopened⟩ := takeAll_finish.1 hb
    have hstart : Nested.Spine start.openNames [] := .top .nil
    have hspine : Nested.Spine b.openNames events := hstart.takeAll hfinish htake
    -- With no element open, the events up to here are all nested.
    rw [openNames, hopened] at hspine
    cases hspine with
    | top h => exact h
  have hbuilt : Nested events → ∃ nodes, start.takeAll (events ++ [.finish here]) =
      .ok ⟨[], nodes.reverse⟩ ∧ List.Forall₂ Event.ShownBy
        (events.filter fun event => !event.isVoidEnd) (marksOf nodes) := by
    intro h
    obtain ⟨nodes, htake, hshown⟩ := h.exists_takeAll hvalid (b := start) nofun
    rw [start, attachAll_top, List.append_nil] at htake
    exact ⟨nodes, takeAll_finish.2 ⟨htake, rfl⟩, hshown⟩
  constructor
  · refine ⟨fun ⟨b, hb⟩ => hnested b hb, fun h => ?_⟩
    obtain ⟨nodes, htake, -⟩ := hbuilt h
    exact ⟨_, htake⟩
  · intro b hb
    obtain ⟨nodes, htake, hshown⟩ := hbuilt (hnested b hb)
    obtain rfl := Except.ok.inj (htake.symm.trans hb)
    rwa [tree, List.reverse_reverse]

/-- An element with a directive, in which an element without content is closed all the same. -/
def nestedEvents : List Event :=
  [.startTag ⟨"P", [⟨"data-sly-test", some "x", some '"', ⟨1, 4⟩⟩, ⟨"id", none, none, ⟨1, 22⟩⟩],
      false, ⟨1, 1⟩⟩, .text "a" ⟨1, 25⟩, .startTag ⟨"br", [], false, ⟨1, 26⟩⟩,
    .endTag "BR" ⟨1, 30⟩, .endTag "p" ⟨1, 35⟩]

theorem takeAll_finish_iff_directive :
    (∀ event ∈ nestedEvents, event.isFinish = false) ∧ (∀ event ∈ nestedEvents, event.Valid) ∧
      Nested nestedEvents ∧ ∃ b, start.takeAll (nestedEvents ++ [.finish ⟨1, 39⟩]) = .ok b ∧
        List.Forall₂ Event.ShownBy (nestedEvents.filter fun event => !event.isVoidEnd)
          (marksOf b.tree) := by
  have hfinish : ∀ event ∈ nestedEvents, event.isFinish = false := by decide
  have hdirective : WrittenAttribute.Valid ⟨"data-sly-test", some "x", some '"', ⟨1, 4⟩⟩ := by
    intro call hcall
    have hok : (directiveExpression ⟨1, 19⟩ (some "x")).isOk = true := by decide +kernel
    cases hread : directiveExpression ⟨1, 19⟩ (some "x") with
    | error e => rw [hread] at hok; cases hok
    | ok e => exact ⟨e, hread⟩
  have hplain : WrittenAttribute.Valid ⟨"id", none, none, ⟨1, 22⟩⟩ := by
    intro call hcall
    have hnone : DirectiveCall.ofAttributeName? "id" = none := by decide +kernel
    rw [hnone] at hcall
    cases hcall
  have hvalid : ∀ event ∈ nestedEvents, event.Valid := by
    simpa [nestedEvents, Event.Valid] using ⟨hdirective, hplain⟩
  have hbody : Nested [.text "a" ⟨1, 25⟩, .startTag ⟨"br", [], false, ⟨1, 26⟩⟩,
      .endTag "BR" ⟨1, 30⟩] :=
    .text "a" ⟨1, 25⟩ (.empty (by decide +kernel) (.voidEnd ⟨1, 30⟩ (by decide +kernel) .nil))
  have hnested : Nested nestedEvents :=
    .element ⟨1, 35⟩ (by decide +kernel) (by decide +kernel) hbody .nil
  obtain ⟨haccepts, hshown⟩ := takeAll_finish_iff ⟨1, 39⟩ hfinish hvalid
  obtain ⟨b, hb⟩ := haccepts.2 hnested
  exact ⟨hfinish, hvalid, hnested, b, hb, hshown b hb⟩

end Builder

end Stencil.Markup
