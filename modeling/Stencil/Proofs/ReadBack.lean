import Stencil.Proofs.ReadTrees
import Stencil.Proofs.ScannedMarkup

/-!
# Reading back canonical markup

The reader gives canonical markup back from its written form, with the locations where the parts
stand. Text stays with the scanner until the next construct begins, so we look at the builder as it
is once that text has been attached.

## Main definitions

* `Template.Reader.settled`: the builder with the text that the scanner still holds
* `Template.Reader.Takes`: a reader takes characters that make up nodes

## Main results

* `Node.exists_takes`, `exists_takesAll`: the written form of a node makes up the node
* `Template.ofText_renderAll`: reading gives canonical markup back
-/

namespace Stencil.Markup

variable {tag : Tag}

/-! ### Attributes -/

/-- The name of a canonical attribute is not that of a directive. -/
theorem Attribute.Canonical.ofAttributeName?_eq_none {attr : Attribute} (hattr : attr.Canonical) :
    DirectiveCall.ofAttributeName? attr.name = none := by
  unfold DirectiveCall.ofAttributeName?
  refine if_neg fun h => hattr.name_free ?_
  obtain ⟨hstart, -⟩ := Bool.and_eq_true_iff.1 h
  have hlower : Text.lowerAscii directiveStart = directiveStart := by decide +kernel
  rw [Text.eqIgnoringAsciiCase, decide_eq_true_eq, hlower] at hstart
  have hpart := congrArg String.toList hstart
  rw [Text.lowerAscii, String.toList_ofList, String.toList_ofList, List.map_take] at hpart
  rw [← hpart]
  exact List.take_prefix _ _

theorem Attribute.Canonical.ofWritten_written {attr : Attribute} (hattr : attr.Canonical)
    (here : Location) :
    Attribute.ofWritten (attr.written here) = .ok { attr with location := here } := by
  have hname : DirectiveCall.ofAttributeName? (attr.written here).name = none :=
    hattr.ofAttributeName?_eq_none
  rw [Attribute.ofWritten_of_none hname]
  obtain ⟨name, value, quote?, location⟩ := attr
  have hvalue := hattr.value
  match value, quote?, hvalue with
  | .absent, none, _ => rfl
  | .literal text, some quote, _ => rfl

/-- The builder reads attributes as they are written. -/
theorem mapM_ofWritten {attributes : List Attribute}
    (hattributes : ∀ attr ∈ attributes, attr.Canonical) (here : Location) :
    (writtenAttributes here attributes).mapM Attribute.ofWritten =
      .ok (placedAttributes here attributes) := by
  induction attributes generalizing here with
  | nil => rfl
  | cons attr rest ih =>
    obtain ⟨hattr, hrest⟩ := List.forall_mem_cons.1 hattributes
    rw [writtenAttributes, List.mapM_cons, hattr.ofWritten_written, ih hrest]
    rfl

/-! ### Builders -/

namespace Builder

/-- Puts nodes into the innermost open element, one after the other. -/
def attachAll (b : Builder) (nodes : List Node) : Builder :=
  nodes.foldl attach b

@[simp] theorem attachAll_nil (b : Builder) : b.attachAll [] = b := rfl

@[simp] theorem attachAll_cons (b : Builder) (node : Node) (rest : List Node) :
    b.attachAll (node :: rest) = (b.attach node).attachAll rest := rfl

theorem attachAll_append (b : Builder) (first second : List Node) :
    b.attachAll (first ++ second) = (b.attachAll first).attachAll second :=
  List.foldl_append

theorem attachAll_opened (inner : OpenElement) (outer : List OpenElement) (forest nodes : List Node) :
    attachAll ⟨inner :: outer, forest⟩ nodes =
      ⟨{ inner with children := nodes.reverse ++ inner.children } :: outer, forest⟩ := by
  induction nodes generalizing inner with
  | nil => rfl
  | cons node rest ih => simp [attach, ih]

theorem attachAll_top (forest nodes : List Node) :
    attachAll ⟨[], forest⟩ nodes = ⟨[], nodes.reverse ++ forest⟩ := by
  induction nodes generalizing forest with
  | nil => rfl
  | cons node rest ih => simp [attach, ih]

/-- A start tag opens an element, or attaches it if it cannot have content. -/
theorem take_startTag (b : Builder) (htag : tag.Canonical) (here : Location) :
    b.take (.startTag (tag.written here)) =
      if tag.selfClosing || isVoidElement tag.name then
        .ok (b.attach (.element { tag.placed here with hasEndTag := false } []))
      else .ok ⟨⟨tag.name, (tag.placed here).attributes, here, []⟩ :: b.opened, b.forest⟩ := by
  have hread := mapM_ofWritten htag.attributes (here.advance ('<' :: tag.name.toList))
  simp only [take, takeStartTag, Tag.written, hread]
  rfl

/-- The end tag of the innermost open element attaches the element. -/
theorem take_endTag (inner : OpenElement) (outer : List OpenElement) (forest : List Node)
    (here : Location) :
    take ⟨inner :: outer, forest⟩ (.endTag inner.name here) =
      .ok (attach ⟨outer, forest⟩ (closed inner)) := by
  have hname : Text.eqIgnoringAsciiCase inner.name inner.name = true := decide_eq_true rfl
  exact (Takes.closes here rfl hname).take_eq

theorem closed_placed (hslash : tag.selfClosing = false) (hend : tag.hasEndTag = true)
    (here : Location) (children : List Node) :
    closed ⟨tag.name, (tag.placed here).attributes, here, children.reverse⟩ =
      .element (tag.placed here) children := by
  simp [closed, Tag.placed, hslash, hend]

end Builder

/-- The text that a scanner holds back, as a node. -/
def Scanner.textNodes (s : Scanner) : List Node :=
  if s.text.isEmpty then [] else [.text (String.ofList s.text.reverse) s.textStart]

theorem Builder.takeAll_textEvents (b : Builder) (s : Scanner) :
    b.takeAll s.textEvents = .ok (b.attachAll s.textNodes) := by
  unfold Scanner.textEvents Scanner.textNodes
  split <;> rfl

/-- Elements that cannot have content hold no raw text. -/
theorem isRawTextElement_of_isVoidElement {name : String} (h : isVoidElement name = true) :
    isRawTextElement name = false := by
  by_contra hraw
  have hlower : Text.lowerAscii name = "script" ∨ Text.lowerAscii name = "style" := by
    rcases Scanner.map_toLower_of_isRawTextElement (by simpa using hraw) with h | h
    · exact .inl (by rw [Text.lowerAscii, h, String.ofList_toList])
    · exact .inr (by rw [Text.lowerAscii, h, String.ofList_toList])
  simp only [isVoidElement, isOneOf, Text.eqIgnoringAsciiCase] at h
  rcases hlower with hlower | hlower <;> rw [hlower] at h <;> exact absurd h (by decide +kernel)

theorem Tag.modeAfter_of_empty (tag : Tag)
    (h : tag.selfClosing = true ∨ isVoidElement tag.name = true) : tag.modeAfter = .text := by
  refine if_neg ?_
  rcases h with h | h
  · simp [h]
  · simp [isRawTextElement_of_isVoidElement h]

namespace Template.Reader

/-! ### Readers -/

/-- The builder with the text that the scanner holds back. -/
def settled (r : Reader) : Builder :=
  r.builder.attachAll r.scanner.textNodes

variable {r : Reader}

theorem settled_of_nil (h : r.scanner.text = []) : r.settled = r.builder := by
  simp [settled, Scanner.textNodes, h]

theorem take_of_feed {cs : List Char} {events : List Event} {s : Scanner} {b : Builder}
    (hfeed : r.scanner.feed cs = (events, .ok s)) (hb : r.builder.takeAll events = .ok b) :
    r.take cs = .ok ⟨s, b⟩ := by
  simp only [take, hfeed, hb]
  rfl

/-- A construct is taken after the text before it. -/
theorem take_of_report {cs : List Char} {event : Event} {s t : Scanner} {b : Builder}
    (hfeed : r.scanner.feed cs = (t.textEvents ++ [event], .ok s))
    (hb : (r.builder.attachAll t.textNodes).take event = .ok b) : r.take cs = .ok ⟨s, b⟩ := by
  refine take_of_feed hfeed ?_
  rw [Builder.takeAll_append, Builder.takeAll_textEvents]
  simp only [bind, Except.bind, Builder.takeAll, List.foldlM_cons, List.foldlM_nil]
  exact (congrArg (· >>= _) hb).trans rfl

theorem take_append_of_ok {first : List Char} {next : Reader} (h : r.take first = .ok next)
    (second : List Char) : r.take (first ++ second) = next.take second := by
  rw [take_append, h]
  rfl

/-- From between constructs to between constructs, a reader takes characters that make up nodes. -/
structure Takes (r : Reader) (cs : List Char) (nodes : List Node) (next : Reader) : Prop where
  take : r.take cs = .ok next
  mode : next.scanner.mode = .text
  location : next.scanner.location = r.scanner.location.advance cs
  settled : next.settled = r.settled.attachAll nodes

variable {next last : Reader} {cs ds : List Char} {nodes others : List Node}

theorem Takes.nil (h : r.scanner.mode = .text) : r.Takes [] [] r :=
  ⟨rfl, h, rfl, rfl⟩

theorem Takes.append (h : r.Takes cs nodes next) (h' : next.Takes ds others last) :
    r.Takes (cs ++ ds) (nodes ++ others) last where
  take := (take_append_of_ok h.take ds).trans h'.take
  mode := h'.mode
  location := by rw [h'.location, h.location, Location.advance_append]
  settled := by rw [h'.settled, h.settled, Builder.attachAll_append]

/-! ### Nodes -/

theorem exists_takes_text (hmode : r.scanner.mode = .text) (hnone : r.scanner.text = [])
    {text : String} (hne : text.toList ≠ []) (htext : '<' ∉ text.toList) :
    ∃ next, r.Takes text.toList [.text text r.scanner.location] next := by
  have hfeed := Scanner.feed_text hmode hnone htext
  refine ⟨⟨r.scanner.afterText text.toList, r.builder⟩, take_of_feed hfeed rfl, hmode, rfl, ?_⟩
  rw [settled_of_nil hnone]
  simp [settled, Scanner.textNodes, Scanner.afterText, hne]

theorem exists_takes_comment (hmode : r.scanner.mode = .text) {text : String}
    (htext : ¬ ['-', '-', '>'] <:+: text.toList) :
    ∃ next, r.Takes (['<', '!', '-', '-'] ++ text.toList ++ ['-', '-', '>'])
        [.comment text r.scanner.location] next ∧
      next.scanner.text = [] := by
  have hfeed := Scanner.feed_comment hmode htext
  rw [String.ofList_toList] at hfeed
  exact ⟨⟨_, _⟩, ⟨take_of_report hfeed rfl, rfl, rfl, rfl⟩, rfl⟩

/-- An element without an end tag. -/
theorem exists_takes_empty (hmode : r.scanner.mode = .text) (htag : tag.Canonical)
    (hend : tag.hasEndTag = false)
    (hempty : tag.selfClosing = true ∨ isVoidElement tag.name = true) :
    ∃ next, r.Takes tag.renderStart [.element (tag.placed r.scanner.location) []] next ∧
      next.scanner.text = [] := by
  have hfeed := Scanner.feed_renderStart hmode htag
  have hplaced : { tag.placed r.scanner.location with hasEndTag := false } =
      tag.placed r.scanner.location := by
    simp [Tag.placed, hend]
  have htake := r.settled.take_startTag htag r.scanner.location
  rw [if_pos (by simpa using hempty), hplaced] at htake
  exact ⟨⟨_, _⟩, ⟨take_of_report hfeed htake, tag.modeAfter_of_empty hempty, rfl, rfl⟩, rfl⟩

/-- A start tag opens an element. -/
theorem exists_take_renderStart (hmode : r.scanner.mode = .text) (htag : tag.Canonical)
    (hslash : tag.selfClosing = false) (hvoid : isVoidElement tag.name = false) :
    ∃ next, r.take tag.renderStart = .ok next ∧ next.scanner.mode = tag.modeAfter ∧
      next.scanner.text = [] ∧
      next.scanner.location = r.scanner.location.advance tag.renderStart ∧
      next.settled = ⟨⟨tag.name, (tag.placed r.scanner.location).attributes, r.scanner.location, []⟩
        :: r.settled.opened, r.settled.forest⟩ := by
  have htake := r.settled.take_startTag htag r.scanner.location
  rw [if_neg (by simp [hslash, hvoid])] at htake
  exact ⟨⟨_, _⟩, take_of_report (Scanner.feed_renderStart hmode htag) htake, rfl, rfl, rfl, rfl⟩

/-- An end tag attaches the innermost open element. -/
theorem exists_take_endTag (hmode : r.scanner.mode = .text) (htag : tag.Canonical)
    {inner : OpenElement} {outer : List OpenElement} {forest : List Node}
    (hname : inner.name = tag.name) (hsettled : r.settled = ⟨inner :: outer, forest⟩) :
    ∃ next, r.take ('<' :: '/' :: tag.name.toList ++ ['>']) = .ok next ∧
      next.scanner.mode = .text ∧ next.scanner.text = [] ∧
      next.scanner.location =
        r.scanner.location.advance ('<' :: '/' :: tag.name.toList ++ ['>']) ∧
      next.settled = Builder.attach ⟨outer, forest⟩ (Builder.closed inner) := by
  have htake := Builder.take_endTag inner outer forest r.scanner.location
  rw [hname, ← hsettled] at htake
  exact ⟨⟨_, _⟩, take_of_report (Scanner.feed_endTag hmode htag) htake, rfl, rfl, rfl, rfl⟩

/-- An element with an end tag around children that the reader takes. -/
theorem exists_takes_parent (hmode : r.scanner.mode = .text) (htag : tag.Canonical)
    (hend : tag.hasEndTag = true) (hslash : tag.selfClosing = false)
    (hvoid : isVoidElement tag.name = false) (hraw : isRawTextElement tag.name = false)
    {children : List Node}
    (hchildren : ∀ inside : Reader, inside.scanner.mode = .text → inside.scanner.text = [] →
      ∃ next, inside.Takes (renderAll children) (placedAll inside.scanner.location children) next) :
    ∃ next, r.Takes (tag.renderStart ++ renderAll children ++ tag.renderEnd)
        [.element (tag.placed r.scanner.location)
          (placedAll (r.scanner.location.advance tag.renderStart) children)] next ∧
      next.scanner.text = [] := by
  obtain ⟨inside, hstart, hinside, hnone, hlocation, hopened⟩ :=
    exists_take_renderStart hmode htag hslash hvoid
  have hafter : tag.modeAfter = .text := if_neg (by simp [hraw])
  obtain ⟨filled, hfilled⟩ := hchildren inside (hinside.trans hafter) hnone
  have hsettled := hfilled.settled
  rw [hopened, Builder.attachAll_opened, List.append_nil, hlocation] at hsettled
  obtain ⟨last, hlast, hlastMode, hlastText, hlastLocation, hlastSettled⟩ :=
    exists_take_endTag hfilled.mode htag rfl hsettled
  rw [Builder.closed_placed hslash hend] at hlastSettled
  have hrender : tag.renderEnd = '<' :: '/' :: tag.name.toList ++ ['>'] := if_pos hend
  refine ⟨last, ⟨?_, hlastMode, ?_, hlastSettled⟩, hlastText⟩
  · rw [hrender, List.append_assoc, take_append_of_ok hstart, take_append_of_ok hfilled.take, hlast]
  · rw [hlastLocation, hfilled.location, hlocation, hrender]
    simp only [Location.advance_append]

/-- The text in a raw text element. -/
theorem textNodes_of_rawContent {name : String} {children : List Node}
    (h : RawContent name children) (s : Scanner) :
    ¬ '<' :: '/' :: name.toList.map Char.toLower <:+: (renderAll children).map Char.toLower ∧
      (s.afterText (renderAll children)).textNodes = placedAll s.location children := by
  obtain ⟨hlength, hraw⟩ := h
  match children with
  | [] => exact ⟨by simp [renderAll], rfl⟩
  | [.text content here] =>
    obtain ⟨hne, -, hcontent⟩ := hraw _ (List.mem_singleton.2 rfl)
    refine ⟨by simpa [renderAll, Node.render] using hcontent, ?_⟩
    simp [Scanner.textNodes, Scanner.afterText, renderAll, Node.render, placedAll, Node.placed, hne]
  | [.comment ..] => exact (hraw _ (List.mem_singleton.2 rfl)).elim
  | [.element ..] => exact (hraw _ (List.mem_singleton.2 rfl)).elim
  | _ :: _ :: _ => simp at hlength

/-- An element that holds raw text. -/
theorem exists_takes_raw (hmode : r.scanner.mode = .text) (htag : tag.Canonical)
    (hend : tag.hasEndTag = true) (hslash : tag.selfClosing = false)
    (hvoid : isVoidElement tag.name = false) (hraw : isRawTextElement tag.name = true)
    {children : List Node} (hchildren : RawContent tag.name children) :
    ∃ next, r.Takes (tag.renderStart ++ renderAll children ++ tag.renderEnd)
        [.element (tag.placed r.scanner.location)
          (placedAll (r.scanner.location.advance tag.renderStart) children)] next ∧
      next.scanner.text = [] := by
  obtain ⟨inside, hstart, hinside, hnone, hlocation, hopened⟩ :=
    exists_take_renderStart hmode htag hslash hvoid
  have hafter : tag.modeAfter = .rawText (Text.lowerAscii tag.name) :=
    if_pos (by simp [hraw, hslash])
  obtain ⟨hcontent, hnodes⟩ := textNodes_of_rawContent hchildren inside.scanner
  obtain ⟨here, last, hfeed, hlastMode, hlastText, hlastLocation⟩ :=
    Scanner.exists_feed_rawElement hraw (hinside.trans hafter) hnone hcontent
  have htake : (inside.builder.attachAll
      (inside.scanner.afterText (renderAll children)).textNodes).take (.endTag tag.name here) =
        .ok (r.settled.attach (.element (tag.placed r.scanner.location)
          (placedAll (r.scanner.location.advance tag.renderStart) children))) := by
    rw [hnodes, hlocation, ← settled_of_nil hnone, hopened, Builder.attachAll_opened,
      List.append_nil, ← Builder.closed_placed hslash hend]
    exact Builder.take_endTag _ _ _ _
  have hrender : tag.renderEnd = '<' :: '/' :: tag.name.toList ++ ['>'] := if_pos hend
  have hrest := take_of_report hfeed htake
  refine ⟨⟨last, r.settled.attachAll [_]⟩, ⟨?_, hlastMode, ?_, settled_of_nil hlastText⟩, hlastText⟩
  · rw [hrender, List.append_assoc, take_append_of_ok hstart, ← List.append_assoc]
    exact hrest
  · rw [hlastLocation, hlocation, hrender]
    simp only [Location.advance_append]

end Template.Reader

open Template (Reader)

mutual

/-- The written form of a canonical node makes up the node, after a construct or a text that it can
follow. -/
theorem Node.exists_takes : ∀ (node : Node), node.Canonical → ∀ r : Reader,
    r.scanner.mode = .text → (node.isText = true → r.scanner.text = []) →
      ∃ next, r.Takes node.render [node.placed r.scanner.location] next ∧
        (node.isText = false → next.scanner.text = [])
  | .text content here, h, r, hmode, hnone => by
    obtain ⟨hne, hless, -⟩ := h
    obtain ⟨next, hnext⟩ := Reader.exists_takes_text hmode (hnone rfl) hne hless
    exact ⟨next, hnext, fun htext => by cases htext⟩
  | .comment content here, h, r, hmode, _ => by
    obtain ⟨next, hnext, htext⟩ := Reader.exists_takes_comment hmode h.1
    exact ⟨next, hnext, fun _ => htext⟩
  | .element tag children, h, r, hmode, _ => by
    rw [Node.Canonical] at h
    obtain ⟨htag, h⟩ := h
    have hnext : ∃ next, r.Takes (tag.renderStart ++ renderAll children ++ tag.renderEnd)
        [.element (tag.placed r.scanner.location)
          (placedAll (r.scanner.location.advance tag.renderStart) children)] next ∧
        next.scanner.text = [] := by
      split at h
      · next hend =>
        obtain ⟨⟨hslash, hvoid⟩, hchildren⟩ := h
        split at hchildren
        · next hraw => exact Reader.exists_takes_raw hmode htag hend hslash hvoid hraw hchildren
        · next hraw =>
          refine Reader.exists_takes_parent hmode htag hend hslash hvoid (by simpa using hraw)
            fun inside hinside hnone => ?_
          exact exists_takesAll children hchildren inside hinside fun _ => hnone
      · next hend =>
        obtain ⟨hempty, hchildren⟩ := h
        obtain rfl := List.isEmpty_iff.1 hchildren
        have hrender : tag.renderEnd = [] := if_neg hend
        simpa [renderAll, placedAll, hrender] using
          Reader.exists_takes_empty hmode htag (by simpa using hend) hempty
    obtain ⟨next, hnext, htext⟩ := hnext
    exact ⟨next, by rwa [Node.render, Node.placed], fun _ => htext⟩

/-- The written form of a canonical forest makes up the forest. -/
theorem exists_takesAll : ∀ (nodes : List Node), CanonicalAll nodes → ∀ r : Reader,
    r.scanner.mode = .text → (nodes.head?.any Node.isText = true → r.scanner.text = []) →
      ∃ next, r.Takes (renderAll nodes) (placedAll r.scanner.location nodes) next
  | [], _, r, hmode, _ => ⟨r, .nil hmode⟩
  | node :: rest, h, r, hmode, hnone => by
    rw [CanonicalAll] at h
    obtain ⟨hnode, hrest, hapart⟩ := h
    obtain ⟨between, hbetween, htext⟩ := node.exists_takes hnode r hmode (fun h => hnone (by simpa))
    -- Only a text leaves text behind, and after a text there is none.
    obtain ⟨next, hnext⟩ := exists_takesAll rest hrest between hbetween.mode fun hhead =>
      htext (by simpa using fun htext => hapart ⟨htext, hhead⟩)
    rw [hbetween.location] at hnext
    refine ⟨next, ?_⟩
    rw [renderAll, placedAll]
    exact hbetween.append hnext

end

/-- Reading gives canonical markup back from its written form, with the locations where the parts
stand. -/
theorem Template.ofText_renderAll {forest : List Node} (h : CanonicalAll forest) :
    ofText (renderAll forest) = .ok ⟨placedAll .start forest⟩ := by
  obtain ⟨last, hlast⟩ := exists_takesAll forest h ⟨.start, .start⟩ rfl fun _ => rfl
  have hsettled : last.settled = ⟨[], (placedAll .start forest).reverse⟩ := by
    rw [hlast.settled, ← List.append_nil (placedAll .start forest).reverse]
    exact Builder.attachAll_top [] _
  have hevents : last.scanner.finish =
      .ok (last.scanner.textEvents ++ [.finish last.scanner.location]) := by
    simp only [Scanner.finish, hlast.mode]
  have hbuilder : last.builder.takeAll
      (last.scanner.textEvents ++ [.finish last.scanner.location]) = .ok last.settled := by
    rw [Builder.takeAll_append, Builder.takeAll_textEvents]
    change last.settled.takeAll _ = _
    rw [hsettled]
    rfl
  have hfinish : last.finish = .ok ⟨last.settled.tree⟩ := by
    rw [Reader.finish, hevents]
    simp only [hbuilder]
    rfl
  rw [ofText, hlast.take]
  change last.finish = _
  rw [hfinish, hsettled, Builder.tree, List.reverse_reverse]

end Stencil.Markup
