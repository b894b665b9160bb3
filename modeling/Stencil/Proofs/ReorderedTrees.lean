import Stencil.Proofs.NestedEvents
import Stencil.Proofs.ReorderedDirectives

/-!
# Trees with directives in another order

If the events of a text stay the same but for their locations and for the order of the directives in
one start tag, the tree stays the same but for locations and for the order of the directives on the
element of that tag.

## Main definitions

* `Rearranged`: lists in which some items may change places and the others keep their order
* `StartTag.Reordered`: a start tag with its directives in another order
* `Event.Changed`, `Node.Changed`: the same up to locations and that order, at a given place

## Main results

* `Tag.Changed.like`, `Tag.Changed.exists_redirected`: what changes on an element
* `Builder.Changed.exists_takeAll`: the trees that are built from such events
-/

namespace Stencil

/-! ### Lists in which some items change places -/

/-- The same items up to `f`: those with the property `p` in some order, the others in the same
order. -/
structure Rearranged {α β : Type} (p : α → Bool) (f : α → β) (items others : List α) : Prop where
  perm : ((others.filter p).map f).Perm ((items.filter p).map f)
  rest : (others.filter fun a => !p a).map f = (items.filter fun a => !p a).map f

theorem Rearranged.perm_all {α β : Type} {p : α → Bool} {f : α → β} {items others : List α}
    (h : Rearranged p f items others) : (others.map f).Perm (items.map f) := by
  have hsplit (list : List α) :
      ((list.filter p).map f ++ (list.filter fun a => !p a).map f).Perm (list.map f) := by
    rw [← List.map_append]
    exact (List.filter_append_perm p list).map f
  refine ((hsplit others).symm.trans ?_).trans (hsplit items)
  rw [h.rest]
  exact h.perm.append_right _

/-! ### Lists that are read item by item -/

theorem forall₂_of_mapM {ε α β : Type} {f : α → Except ε β} {items : List α} {results : List β}
    (h : items.mapM f = .ok results) :
    List.Forall₂ (fun a result => f a = .ok result) items results := by
  induction items generalizing results with
  | nil =>
    obtain rfl := Except.ok.inj h
    exact .nil
  | cons a rest ih =>
    rw [List.mapM_cons] at h
    obtain ⟨result, hresult, h⟩ := exists_of_bind_eq_ok h
    obtain ⟨others, hothers, h⟩ := exists_of_bind_eq_ok h
    obtain rfl := Except.ok.inj h
    exact .cons hresult (ih hothers)

theorem exists_mapM_of_forall {ε α β : Type} {f : α → Except ε β} {items : List α}
    (h : ∀ a ∈ items, ∃ result, f a = .ok result) : ∃ results, items.mapM f = .ok results := by
  induction items with
  | nil => exact ⟨[], rfl⟩
  | cons a rest ih =>
    obtain ⟨⟨result, hresult⟩, hrest⟩ := List.forall_mem_cons.1 h
    obtain ⟨results, hresults⟩ := ih hrest
    exact ⟨result :: results, by rw [List.mapM_cons, hresult, hresults]; rfl⟩

theorem exists_of_mapM {ε α β : Type} {f : α → Except ε β} {items : List α} {results : List β}
    (h : items.mapM f = .ok results) : ∀ a ∈ items, ∃ result, f a = .ok result := by
  replace h := forall₂_of_mapM h
  induction h with
  | nil => exact List.forall_mem_nil _
  | cons hfirst _ ih => exact List.forall_mem_cons.2 ⟨⟨_, hfirst⟩, ih⟩

namespace Markup

/-! ### Attributes -/

/-- Whether an attribute of a start tag is a directive. -/
def WrittenAttribute.isDirective (attr : WrittenAttribute) : Bool :=
  (DirectiveCall.ofAttributeName? attr.name).isSome

/-- The directive that an attribute is, if it is one. -/
def Attribute.call? (attr : Attribute) : Option DirectiveCall :=
  match attr.value with
  | .directive call _ => some call
  | _ => none

/-- Whether an attribute is a directive. -/
def Attribute.isDirective (attr : Attribute) : Bool :=
  attr.call?.isSome

/-- What an attribute is read as, without its location. -/
def WrittenAttribute.reading? (attr : WrittenAttribute) : Option Attribute :=
  (Attribute.ofWritten attr).toOption.map Attribute.unplaced

theorem WrittenAttribute.reading?_of_ok {attr : WrittenAttribute} {a : Attribute}
    (h : Attribute.ofWritten attr = .ok a) : attr.reading? = some a.unplaced := by
  rw [reading?, h]
  rfl

theorem WrittenAttribute.reading?_unplaced (attr : WrittenAttribute) :
    attr.unplaced.reading? = attr.reading? := by
  have hsame : attr.unplaced.unplaced = attr.unplaced := rfl
  cases hread : Attribute.ofWritten attr with
  | ok a =>
    obtain ⟨a', hread', ha'⟩ := Attribute.exists_ofWritten hread hsame
    rw [reading?_of_ok hread, reading?_of_ok hread', ha']
  | error e =>
    -- An attribute that is not read at one place is read at none.
    cases hread' : Attribute.ofWritten attr.unplaced with
    | ok a' =>
      obtain ⟨a, ha, -⟩ := Attribute.exists_ofWritten hread' hsame.symm
      rw [hread] at ha
      cases ha
    | error e' =>
      rw [reading?, reading?, hread, hread']
      rfl

theorem Attribute.call?_of_ofWritten {written : WrittenAttribute} {attr : Attribute}
    (h : ofWritten written = .ok attr) :
    attr.call? = DirectiveCall.ofAttributeName? written.name := by
  cases hname : DirectiveCall.ofAttributeName? written.name with
  | none =>
    rw [ofWritten_of_none hname] at h
    obtain rfl := Except.ok.inj h
    cases hvalue : written.value <;> rfl
  | some call =>
    rw [ofWritten_of_some hname] at h
    obtain ⟨e, -, h⟩ := exists_of_bind_eq_ok h
    obtain rfl := Except.ok.inj h
    rfl

variable {written others : List WrittenAttribute} {attributes : List Attribute}

/-- The directives, or the other attributes, come from those that are written. -/
theorem map_unplaced_filter (h : written.mapM Attribute.ofWritten = .ok attributes)
    (p : Bool → Bool) :
    (attributes.filter fun attr => p attr.isDirective).map Attribute.unplaced =
      (written.filter fun attr => p attr.isDirective).filterMap WrittenAttribute.reading? := by
  replace h := forall₂_of_mapM h
  induction h with
  | nil => rfl
  | @cons first attr rest others hattr _ ih =>
    have hsame : attr.isDirective = first.isDirective :=
      congrArg Option.isSome (Attribute.call?_of_ofWritten hattr)
    cases hp : p first.isDirective with
    | true =>
      rw [List.filter_cons_of_pos (by rw [hsame, hp]), List.filter_cons_of_pos (by rw [hp]),
        List.map_cons, List.filterMap_cons_some (WrittenAttribute.reading?_of_ok hattr), ih]
    | false =>
      rw [List.filter_cons_of_neg (by simp [hsame, hp]), List.filter_cons_of_neg (by simp [hp]), ih]

theorem filterMap_reading? (written : List WrittenAttribute) :
    written.filterMap WrittenAttribute.reading? =
      (written.map WrittenAttribute.unplaced).filterMap WrittenAttribute.reading? := by
  have hunplaced : WrittenAttribute.reading? ∘ WrittenAttribute.unplaced =
      WrittenAttribute.reading? := by
    funext attr
    rw [Function.comp_apply, WrittenAttribute.reading?_unplaced]
  rw [List.filterMap_map, hunplaced]

/-- Attributes of the same form are read if others are. -/
theorem exists_mapM_of_perm
    (h : (others.map WrittenAttribute.unplaced).Perm (written.map WrittenAttribute.unplaced))
    (hread : written.mapM Attribute.ofWritten = .ok attributes) :
    ∃ results, others.mapM Attribute.ofWritten = .ok results := by
  refine exists_mapM_of_forall fun attr hattr => ?_
  obtain ⟨attr', hattr', hsame⟩ := List.mem_map.1 (h.mem_iff.1 (List.mem_map_of_mem hattr))
  obtain ⟨a, ha⟩ := exists_of_mapM hread attr' hattr'
  obtain ⟨a', ha', -⟩ := Attribute.exists_ofWritten ha hsame.symm
  exact ⟨a', ha'⟩

theorem exists_mapM_of_same
    (h : others.map WrittenAttribute.unplaced = written.map WrittenAttribute.unplaced)
    (hread : written.mapM Attribute.ofWritten = .ok attributes) :
    ∃ results, others.mapM Attribute.ofWritten = .ok results ∧
      results.map Attribute.unplaced = attributes.map Attribute.unplaced := by
  obtain ⟨results, hresults⟩ := exists_mapM_of_perm (List.Perm.of_eq h) hread
  have hall := map_unplaced_filter hread fun _ => true
  have hall' := map_unplaced_filter hresults fun _ => true
  simp only [List.filter_true] at hall hall'
  refine ⟨results, hresults, ?_⟩
  rw [hall, hall', filterMap_reading?, h, ← filterMap_reading?]

/-- Attributes of which some change places are read if they were before, as the same. -/
theorem exists_mapM_of_rearranged
    (h : Rearranged WrittenAttribute.isDirective WrittenAttribute.unplaced written others)
    (hread : written.mapM Attribute.ofWritten = .ok attributes) :
    ∃ results, others.mapM Attribute.ofWritten = .ok results ∧
      Rearranged Attribute.isDirective Attribute.unplaced attributes results := by
  obtain ⟨results, hresults⟩ := exists_mapM_of_perm h.perm_all hread
  -- The directives and the rest are each read from those that are written, in their order.
  refine ⟨results, hresults, ?_, ?_⟩
  · have hdirectives := map_unplaced_filter hread id
    have hdirectives' := map_unplaced_filter hresults id
    simp only [id_eq] at hdirectives hdirectives'
    rw [hdirectives, hdirectives', filterMap_reading?, filterMap_reading? (written.filter _)]
    exact h.perm.filterMap _
  · have hrest := map_unplaced_filter hread not
    have hrest' := map_unplaced_filter hresults not
    rw [hrest, hrest', filterMap_reading?, h.rest, ← filterMap_reading?]

/-! ### Tags -/

/-- The priority of the directive that is called, if it is known. -/
def DirectiveCall.priority? (registry : Registry) (call : DirectiveCall) : Option Int :=
  (registry.find? call.name).map Directive.priority

/-- The priorities of the directives in a start tag. -/
def StartTag.priorities (registry : Registry) (tag : StartTag) : List Int :=
  tag.attributes.filterMap fun attr =>
    (DirectiveCall.ofAttributeName? attr.name).bind (DirectiveCall.priority? registry)

/-- A start tag with its directives in another order. All of them are known, and no two have the
same priority. The other attributes stay in their order. -/
structure StartTag.Reordered (registry : Registry) (tag other : StartTag) : Prop where
  name : other.name = tag.name
  selfClosing : other.selfClosing = tag.selfClosing
  attributes : Rearranged WrittenAttribute.isDirective WrittenAttribute.unplaced tag.attributes
    other.attributes
  known : ∀ attr ∈ tag.attributes, ∀ call,
    DirectiveCall.ofAttributeName? attr.name = some call → registry.contains call.name = true
  distinct : (tag.priorities registry).Nodup

/-- Attributes with the directives among them in another order. -/
structure ReorderedAttributes (registry : Registry) (attributes others : List Attribute) :
    Prop where
  rearranged : Rearranged Attribute.isDirective Attribute.unplaced attributes others
  known : ∀ attr ∈ attributes, attr.isDirective = true → isWritten registry attr = false
  distinct : ((occurrences registry attributes).map (·.directive.priority)).Nodup

/-- Attributes that stay the same up to locations, except at the place `spot`: there, the directives
may come in another order. -/
def AttributesChanged (registry : Registry) (spot here : Location)
    (attributes others : List Attribute) : Prop :=
  others.map Attribute.unplaced = attributes.map Attribute.unplaced ∨
    here = spot ∧ ReorderedAttributes registry attributes others

/-- Tags that stay the same up to locations and the order of directives at the place `spot`. -/
structure Tag.Changed (registry : Registry) (spot : Location) (tag other : Tag) : Prop where
  name : other.name = tag.name
  selfClosing : other.selfClosing = tag.selfClosing
  hasEndTag : other.hasEndTag = tag.hasEndTag
  attributes : AttributesChanged registry spot tag.location tag.attributes other.attributes

variable {registry : Registry}

theorem map_call?_of_mapM (hread : written.mapM Attribute.ofWritten = .ok attributes) :
    attributes.map Attribute.call? =
      written.map fun attr => DirectiveCall.ofAttributeName? attr.name := by
  replace hread := forall₂_of_mapM hread
  induction hread with
  | nil => rfl
  | cons hattr _ ih => rw [List.map_cons, List.map_cons, Attribute.call?_of_ofWritten hattr, ih]

theorem isWritten_of_call? {attr : Attribute} {call : DirectiveCall} (h : attr.call? = some call) :
    isWritten registry attr = !registry.contains call.name := by
  rw [Attribute.call?] at h
  rw [isWritten]
  cases hvalue : attr.value with
  | directive found e =>
    rw [hvalue] at h
    obtain rfl := Option.some.inj h
    rfl
  | _ =>
    rw [hvalue] at h
    cases h

theorem known_of_mapM (hread : written.mapM Attribute.ofWritten = .ok attributes)
    (hknown : ∀ attr ∈ written, ∀ call,
      DirectiveCall.ofAttributeName? attr.name = some call → registry.contains call.name = true) :
    ∀ attr ∈ attributes, attr.isDirective = true → isWritten registry attr = false := by
  intro attr hattr hdirective
  obtain ⟨call, hcall⟩ := Option.isSome_iff_exists.1 hdirective
  have hmem : some call ∈ attributes.map Attribute.call? := hcall ▸ List.mem_map_of_mem hattr
  rw [map_call?_of_mapM hread] at hmem
  obtain ⟨first, hfirst, hname⟩ := List.mem_map.1 hmem
  rw [isWritten_of_call? hcall, hknown first hfirst call hname]
  rfl

/-- What an attribute says of directives, if it names one that is known. -/
def Attribute.occurrence? (registry : Registry) (attr : Attribute) : Option Occurrence :=
  match attr.value with
  | .directive call e =>
    (registry.find? call.name).map fun directive => ⟨directive, call, ⟨e, attr.location⟩⟩
  | _ => none

theorem Attribute.map_priority_occurrence? (attr : Attribute) :
    (attr.occurrence? registry).map (·.directive.priority) =
      attr.call?.bind (DirectiveCall.priority? registry) := by
  rw [occurrence?, call?]
  cases attr.value with
  | directive call e => exact Option.map_map ..
  | _ => rfl

theorem Attribute.map_unplaced_occurrence? (attr : Attribute) :
    (attr.occurrence? registry).map Occurrence.unplaced = attr.unplaced.occurrence? registry := by
  rw [occurrence?, occurrence?, unplaced]
  cases attr.value with
  | directive call e => exact Option.map_map ..
  | _ => rfl

theorem map_occurrences {α : Type} {g : Occurrence → α} {h : Attribute → Option α}
    (hone : ∀ attr : Attribute, (attr.occurrence? registry).map g = h attr)
    (attributes : List Attribute) :
    (occurrences registry attributes).map g = attributes.filterMap h := by
  have hall : (fun attr : Attribute => (attr.occurrence? registry).map g) = h := funext hone
  rw [← hall]
  exact List.map_filterMap

theorem map_unplaced_occurrences (attributes : List Attribute) :
    (occurrences registry attributes).map Occurrence.unplaced =
      (attributes.map Attribute.unplaced).filterMap (Attribute.occurrence? registry) := by
  rw [map_occurrences Attribute.map_unplaced_occurrence?, List.filterMap_map]
  rfl

theorem priorities_of_mapM {tag : StartTag}
    (hread : tag.attributes.mapM Attribute.ofWritten = .ok attributes) :
    (occurrences registry attributes).map (·.directive.priority) = tag.priorities registry := by
  have hcalls (list : List Attribute) :
      list.filterMap (fun attr => attr.call?.bind (DirectiveCall.priority? registry)) =
        (list.map Attribute.call?).filterMap (·.bind (DirectiveCall.priority? registry)) := by
    rw [List.filterMap_map, Function.comp_def]
  rw [map_occurrences Attribute.map_priority_occurrence?, hcalls, map_call?_of_mapM hread,
    List.filterMap_map, Function.comp_def, StartTag.priorities]

theorem StartTag.Reordered.attributes_of_mapM {tag other : StartTag}
    (h : tag.Reordered registry other)
    (hread : tag.attributes.mapM Attribute.ofWritten = .ok attributes) :
    ∃ results, other.attributes.mapM Attribute.ofWritten = .ok results ∧
      ReorderedAttributes registry attributes results := by
  obtain ⟨results, hresults, hrearranged⟩ := exists_mapM_of_rearranged h.attributes hread
  refine ⟨results, hresults, hrearranged, known_of_mapM hread h.known, ?_⟩
  rw [priorities_of_mapM hread]
  exact h.distinct

/-! ### What changes on an element -/

theorem map_unplaced_filter_isWritten {first second : List Attribute} (p : String → Bool)
    (h : second.map Attribute.unplaced = first.map Attribute.unplaced) :
    (second.filter fun attr => isWritten registry attr && p attr.name).map Attribute.unplaced =
      (first.filter fun attr => isWritten registry attr && p attr.name).map
        Attribute.unplaced := by
  have hfilter (list : List Attribute) :
      (list.filter fun attr => isWritten registry attr && p attr.name).map Attribute.unplaced =
        (list.map Attribute.unplaced).filter fun attr =>
          isWritten registry attr && p attr.name := by
    rw [List.filter_map]
    rfl
  rw [hfilter, hfilter, h]

namespace ReorderedAttributes

variable {first second : List Attribute}

theorem known_second (h : ReorderedAttributes registry first second) :
    ∀ attr ∈ second, attr.isDirective = true → isWritten registry attr = false := by
  intro attr hattr hdirective
  have hmem : attr.unplaced ∈ (second.filter Attribute.isDirective).map Attribute.unplaced :=
    List.mem_map_of_mem (List.mem_filter.2 ⟨hattr, hdirective⟩)
  obtain ⟨found, hfound, hsame⟩ := List.mem_map.1 (h.rearranged.perm.mem_iff.1 hmem)
  obtain ⟨hfound, hdirective'⟩ := List.mem_filter.1 hfound
  have hwritten : isWritten registry attr.unplaced = isWritten registry found.unplaced := by
    rw [hsame]
  exact hwritten.trans (h.known found hfound hdirective')

theorem filter_isWritten {list : List Attribute} (p : String → Bool)
    (h : ∀ attr ∈ list, attr.isDirective = true → isWritten registry attr = false) :
    (list.filter fun attr => isWritten registry attr && p attr.name) =
      (list.filter fun attr => !attr.isDirective).filter fun attr =>
        isWritten registry attr && p attr.name := by
  rw [List.filter_filter]
  refine List.filter_congr fun attr hattr => ?_
  cases hdirective : attr.isDirective with
  | false => simp
  | true => simp [h attr hattr hdirective]

/-- Directives are not written, so the written attributes keep their order. -/
theorem map_unplaced_written (h : ReorderedAttributes registry first second) (p : String → Bool) :
    (second.filter fun attr => isWritten registry attr && p attr.name).map Attribute.unplaced =
      (first.filter fun attr => isWritten registry attr && p attr.name).map
        Attribute.unplaced := by
  rw [filter_isWritten p h.known, filter_isWritten p h.known_second]
  exact map_unplaced_filter_isWritten p h.rearranged.rest

end ReorderedAttributes

namespace Tag.Changed

variable {spot : Location} {tag other : Tag}

theorem like (h : tag.Changed registry spot other) : tag.Like registry other where
  name := h.name
  selfClosing := h.selfClosing
  hasEndTag := h.hasEndTag
  keptAttributes effect := by
    obtain hsame | ⟨-, hreordered⟩ := h.attributes
    · exact map_unplaced_filter_isWritten (fun name => !effect.overrides name) hsame
    · exact hreordered.map_unplaced_written fun name => !effect.overrides name

/-- The directives on an element are given the same names, in another order at most. -/
theorem exists_redirected (h : tag.Changed registry spot other) (hregistry : registry.Unmarked)
    (n : Nat) :
    ∃ σ, Tag.Redirected registry n tag other σ ∧ (σ ≠ 1 → tag.location = spot) := by
  obtain hsame | ⟨hspot, hreordered⟩ := h.attributes
  · refine ⟨1, redirected_of_eq hregistry ?_, fun hne => absurd rfl hne⟩
    rw [map_unplaced_occurrences, map_unplaced_occurrences, hsame]
  · have hperm : ((Markup.occurrences registry tag.attributes).map Occurrence.unplaced).Perm
        ((Markup.occurrences registry other.attributes).map Occurrence.unplaced) := by
      rw [map_unplaced_occurrences, map_unplaced_occurrences]
      exact (hreordered.rearranged.perm_all.filterMap _).symm
    obtain ⟨σ, hσ⟩ := exists_redirected_of_perm hregistry hperm hreordered.distinct
    exact ⟨σ, hσ, fun _ => hspot⟩

end Tag.Changed

/-! ### Events -/

/-- A start tag without its locations. -/
def StartTag.unplaced (tag : StartTag) : StartTag :=
  { tag with attributes := tag.attributes.map WrittenAttribute.unplaced, location := .nowhere }

/-- An event without its locations. -/
def Event.unplaced : Event → Event
  | .text written _ => .text written .nowhere
  | .comment written _ => .comment written .nowhere
  | .startTag tag => .startTag tag.unplaced
  | .endTag name _ => .endTag name .nowhere
  | .finish _ => .finish .nowhere

/-- Start tags that stay the same up to locations and the order of directives at the place
`spot`. -/
structure StartTag.Changed (registry : Registry) (spot : Location) (tag other : StartTag) :
    Prop where
  name : other.name = tag.name
  selfClosing : other.selfClosing = tag.selfClosing
  attributes : other.attributes.map WrittenAttribute.unplaced =
      tag.attributes.map WrittenAttribute.unplaced ∨
    tag.location = spot ∧ tag.Reordered registry other

/-- Events that stay the same up to locations and the order of directives at the place `spot`. -/
inductive Event.Changed (registry : Registry) (spot : Location) : Event → Event → Prop where
  | text (text : String) (here there : Location) :
      Changed registry spot (.text text here) (.text text there)
  | comment (text : String) (here there : Location) :
      Changed registry spot (.comment text here) (.comment text there)
  | startTag {tag other : StartTag} (h : tag.Changed registry spot other) :
      Changed registry spot (.startTag tag) (.startTag other)
  | endTag (name : String) (here there : Location) :
      Changed registry spot (.endTag name here) (.endTag name there)
  | finish (here there : Location) : Changed registry spot (.finish here) (.finish there)

variable {spot : Location}

theorem Event.Changed.of_unplaced {event other : Event} (h : other.unplaced = event.unplaced) :
    event.Changed registry spot other := by
  cases event with
  | startTag tag =>
    cases other with
    | startTag tag' =>
      obtain ⟨hname, hattributes, hslash, -⟩ := StartTag.mk.inj (Event.startTag.inj h)
      exact .startTag ⟨hname, hslash, .inl hattributes⟩
    | _ => cases h
  | _ =>
    cases other <;> cases h
    constructor

/-- Events that stay the same up to locations, around a start tag whose directives change
places. -/
theorem Event.forall₂_changed {before after before' after' : List Event} {tag other : StartTag}
    (hbefore : before'.map Event.unplaced = before.map Event.unplaced)
    (htag : tag.Reordered registry other)
    (hafter : after'.map Event.unplaced = after.map Event.unplaced) :
    List.Forall₂ (Event.Changed registry tag.location) (before ++ .startTag tag :: after)
      (before' ++ .startTag other :: after') := by
  have hsame {events others : List Event}
      (h : others.map Event.unplaced = events.map Event.unplaced) :
      List.Forall₂ (Event.Changed registry tag.location) events others := by
    have hall : List.Forall₂ Eq (others.map Event.unplaced) (events.map Event.unplaced) :=
      List.forall₂_eq_eq_eq ▸ h
    rw [List.forall₂_map_left_iff, List.forall₂_map_right_iff] at hall
    exact hall.flip.imp fun _ _ => .of_unplaced
  exact List.rel_append (hsame hbefore)
    (.cons (.startTag ⟨htag.name, htag.selfClosing, .inr ⟨rfl, htag⟩⟩) (hsame hafter))

/-! ### Trees -/

/-- Nodes that stay the same up to locations and the order of directives at the place `spot`. -/
inductive Node.Changed (registry : Registry) (spot : Location) : Node → Node → Prop where
  | text (text : String) (here there : Location) :
      Changed registry spot (.text text here) (.text text there)
  | comment (text : String) (here there : Location) :
      Changed registry spot (.comment text here) (.comment text there)
  | element {tag other : Tag} {children others : List Node}
      (htag : tag.Changed registry spot other)
      (hchildren : List.Forall₂ (Node.Changed registry spot) children others) :
      Changed registry spot (.element tag children) (.element other others)

/-- Elements that are open, and stay the same in this way. -/
structure OpenElement.Changed (registry : Registry) (spot : Location)
    (element other : OpenElement) : Prop where
  name : other.name = element.name
  attributes : AttributesChanged registry spot element.location element.attributes
    other.attributes
  children : List.Forall₂ (Node.Changed registry spot) element.children other.children

/-- Builders that stay the same in this way. -/
structure Builder.Changed (registry : Registry) (spot : Location) (b other : Builder) :
    Prop where
  opened : List.Forall₂ (OpenElement.Changed registry spot) b.opened other.opened
  forest : List.Forall₂ (Node.Changed registry spot) b.forest other.forest

theorem StartTag.Changed.exists_mapM {tag other : StartTag} (h : tag.Changed registry spot other)
    (hread : tag.attributes.mapM Attribute.ofWritten = .ok attributes) :
    ∃ results, other.attributes.mapM Attribute.ofWritten = .ok results ∧
      AttributesChanged registry spot tag.location attributes results := by
  obtain hsame | ⟨hspot, hreordered⟩ := h.attributes
  · obtain ⟨results, hresults, hunplaced⟩ := exists_mapM_of_same hsame hread
    exact ⟨results, hresults, .inl hunplaced⟩
  · obtain ⟨results, hresults, hall⟩ := hreordered.attributes_of_mapM hread
    exact ⟨results, hresults, .inr ⟨hspot, hall⟩⟩

theorem OpenElement.Changed.closed {element other : OpenElement}
    (h : element.Changed registry spot other) :
    (Builder.closed element).Changed registry spot (Builder.closed other) :=
  .element ⟨h.name, rfl, rfl, h.attributes⟩ (List.rel_reverse h.children)

namespace Builder.Changed

variable {b b' next : Builder}

theorem start : Builder.start.Changed registry spot Builder.start :=
  ⟨.nil, .nil⟩

theorem attach (h : b.Changed registry spot b') {node node' : Node}
    (hnode : node.Changed registry spot node') :
    (b.attach node).Changed registry spot (b'.attach node') := by
  obtain ⟨opened, forest⟩ := b
  obtain ⟨opened', forest'⟩ := b'
  obtain ⟨hopened, hforest⟩ := h
  -- The node goes to the top of the tree or into the innermost open element.
  cases hopened with
  | nil => exact ⟨.nil, .cons hnode hforest⟩
  | cons hinner houter =>
    exact ⟨.cons ⟨hinner.name, hinner.attributes, .cons hnode hinner.children⟩ houter, hforest⟩

/-- One event keeps builders the same up to locations and the order of directives. -/
theorem exists_takes (h : b.Changed registry spot b') {event event' : Event}
    (hevent : event.Changed registry spot event') (htake : b.Takes event next) :
    ∃ next', b'.Takes event' next' ∧ next.Changed registry spot next' := by
  cases htake with
  | text text here =>
    cases hevent with
    | text _ _ there => exact ⟨_, .text text there, h.attach (.text text here there)⟩
  | comment text here =>
    cases hevent with
    | comment _ _ there =>
      exact ⟨_, .comment text there, h.attach (.comment text here there)⟩
  | empty hread hempty =>
    cases hevent with
    | startTag htag =>
      obtain ⟨results, hresults, hattributes⟩ := htag.exists_mapM hread
      rw [← htag.name, ← htag.selfClosing] at hempty
      refine ⟨_, .empty hresults hempty, h.attach (.element ⟨?_, ?_, rfl, hattributes⟩ .nil)⟩
      · exact htag.name
      · exact htag.selfClosing
  | opens hread hopen =>
    cases hevent with
    | startTag htag =>
      obtain ⟨results, hresults, hattributes⟩ := htag.exists_mapM hread
      rw [← htag.name, ← htag.selfClosing] at hopen
      exact ⟨_, .opens hresults hopen, .cons ⟨htag.name, hattributes, .nil⟩ h.opened, h.forest⟩
  | closes _ hopened hname =>
    cases hevent with
    | endTag name here there =>
      have hall := h.opened
      rw [hopened] at hall
      obtain ⟨inner', outer', hinner, houter, hopened'⟩ := List.forall₂_cons_left_iff.1 hall
      have houtside : Changed registry spot ⟨_, b.forest⟩ ⟨outer', b'.forest⟩ := ⟨houter, h.forest⟩
      exact ⟨_, .closes there hopened' (hinner.name ▸ hname), houtside.attach hinner.closed⟩
  | voidEnd _ hname hinner =>
    cases hevent with
    | endTag name here there =>
      refine ⟨b', .voidEnd there hname fun inner' hinner' => ?_, h⟩
      -- The innermost elements have the same name.
      have hall := h.opened
      cases hopened' : b'.opened with
      | nil => simp [hopened'] at hinner'
      | cons first' rest' =>
        rw [hopened'] at hall hinner'
        obtain ⟨first, rest, hfirst, -, hopened⟩ := List.forall₂_cons_right_iff.1 hall
        obtain rfl := Option.some.inj hinner'
        rw [hfirst.name]
        exact hinner first (by rw [hopened]; rfl)
  | finish _ hopened =>
    cases hevent with
    | finish here there =>
      have hall := h.opened
      rw [hopened] at hall
      exact ⟨b', .finish there (List.forall₂_nil_left_iff.1 hall), h⟩

/-- Events that stay the same up to locations and the order of directives make the same tree, up to
these. -/
theorem exists_takeAll {events events' : List Event}
    (hevents : List.Forall₂ (Event.Changed registry spot) events events')
    (h : b.Changed registry spot b') (htake : b.takeAll events = .ok next) :
    ∃ next', b'.takeAll events' = .ok next' ∧ next.Changed registry spot next' := by
  induction hevents generalizing b b' with
  | nil =>
    obtain rfl := Except.ok.inj htake
    exact ⟨b', rfl, h⟩
  | cons hevent _ ih =>
    obtain ⟨between, hbetween, htake⟩ := exists_of_takeAll_cons htake
    obtain ⟨between', hbetween', hchanged⟩ := h.exists_takes hevent hbetween
    obtain ⟨next', hnext', hall⟩ := ih hchanged htake
    exact ⟨next', (takeAll_cons_of_ok hbetween'.take_eq).trans hnext', hall⟩

end Builder.Changed

end Markup

end Stencil
