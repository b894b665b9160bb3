import Stencil.Proofs.AcceptedTags
import Stencil.Proofs.PlainMarkup

/-!
# Start tags that are written

A start tag without directives and expressions is written with its attributes in order, each value
between the quotes that it was read with, or between double quotes if it had none. A value is read
back up to the first quote. So the tag is read back as it was just if no value that had no quotes
holds a double quote.

## Main definitions

* `StartTag.render`: the text that is written for a start tag
* `StartTag.Same`: tags with the same names and values
* `Emit.Says`: what writes a text and does nothing else

## Main results

* `emitElement_eq`: an element without directives is written as its tags around its content
* `Scanner.exists_feed_render`: a tag whose values do not hold their quotes is read back
* `Scanner.not_same_of_feed_render`: any other tag is not
* `readBack_iff`: which of the accepted tags are read back
-/

namespace Stencil

open Markup

variable {attr : WrittenAttribute} {attributes : List WrittenAttribute}

namespace Markup

/-- The text that is written for an attribute: a value without quotes gets double quotes. -/
def WrittenAttribute.render (attr : WrittenAttribute) : List Char :=
  ' ' :: attr.name.toList ++
    match attr.value with
    | some value => '=' :: attr.quote.getD '"' :: value.toList ++ [attr.quote.getD '"']
    | none => []

/-- The text that is written for a start tag. -/
def StartTag.render (tag : StartTag) : List Char :=
  '<' :: tag.name.toList ++ tag.attributes.flatMap WrittenAttribute.render ++
    if tag.selfClosing then ['/', '>'] else ['>']

/-- The name of an attribute and its value, if it has one. -/
def WrittenAttribute.pair (attr : WrittenAttribute) : String × Option String :=
  (attr.name, attr.value)

/-- Two tags have the same name, the same attributes in the same order, and a slash at the end or
not. -/
structure StartTag.Same (tag other : StartTag) : Prop where
  name : other.name = tag.name
  attributes : other.attributes.map WrittenAttribute.pair = tag.attributes.map WrittenAttribute.pair
  selfClosing : other.selfClosing = tag.selfClosing

/-- The value does not hold the quote that is written around it. -/
def WrittenAttribute.Enclosed (attr : WrittenAttribute) : Prop :=
  ∀ value, attr.value = some value → attr.quote.getD '"' ∉ value.toList

/-- Only a value without quotes can hold the quote that is written around it. -/
theorem WrittenAttribute.Accepted.enclosed_iff (h : attr.Accepted) :
    attr.Enclosed ↔
      (attr.quote = none → ∀ value, attr.value = some value → '"' ∉ value.toList) := by
  unfold Enclosed
  cases hquote : attr.quote with
  | none => simp
  | some quote =>
    obtain ⟨-, value, hvalue, hfree⟩ := h.quote quote hquote
    simp [hvalue, hfree]

/-- The quote that is written around a value is a quote. -/
theorem WrittenAttribute.Accepted.getD_quote (h : attr.Accepted) :
    attr.quote.getD '"' = '"' ∨ attr.quote.getD '"' = '\'' := by
  cases hquote : attr.quote with
  | none => exact .inl rfl
  | some quote => exact (h.quote quote hquote).1

namespace Scanner

variable {s : Scanner} {mode : Mode} {tag : OpenTag}

/-! ### Reading the text back -/

theorem gathers_name (hattr : attr.Accepted) (hmode : mode.Holds tag) (cs : List Char) :
    s.Gathers cs mode (' ' :: attr.name.toList)
      (.attributeName tag ⟨attr.name.toList.reverse, (s.location.advance cs).next ' '⟩) :=
  gathers_attributeName hmode cs hattr.name.ne_nil hattr.name.continues

/-- An attribute whose value does not hold its quote is read back. -/
theorem exists_gathers_written (hattr : attr.Accepted) (henclosed : attr.Enclosed)
    (hmode : mode.Holds tag) (cs : List Char) :
    ∃ mode' again, s.Gathers cs mode attr.render mode' ∧ mode'.Holds (tag.add again) ∧
      again.pair = attr.pair := by
  have hname := gathers_name (s := s) hattr hmode cs
  cases hvalue : attr.value with
  | none =>
    have hrender : attr.render = ' ' :: attr.name.toList := by
      simp [WrittenAttribute.render, hvalue]
    rw [← hrender] at hname
    refine ⟨_, _, hname, .flag tag _, ?_⟩
    simp [WrittenAttribute.pair, OpenAttribute.close, hvalue]
  | some value =>
    have hgathers := hname.trans (gathers_value tag _ _ hattr.getD_quote (henclosed value hvalue))
    have hrender : attr.render = ' ' :: attr.name.toList ++
        ('=' :: attr.quote.getD '"' :: value.toList ++ [attr.quote.getD '"']) := by
      simp [WrittenAttribute.render, hvalue]
    rw [← hrender] at hgathers
    refine ⟨_, _, hgathers, .value _, ?_⟩
    simp [WrittenAttribute.pair, OpenAttribute.close, hvalue]

theorem exists_gathers_allWritten (haccepted : ∀ attr ∈ attributes, attr.Accepted)
    (henclosed : ∀ attr ∈ attributes, attr.Enclosed) (hmode : mode.Holds tag) (cs : List Char) :
    ∃ (mode' : Mode) (again : List WrittenAttribute),
      s.Gathers cs mode (attributes.flatMap WrittenAttribute.render) mode' ∧
      mode'.Holds ⟨tag.name, again.reverse ++ tag.attributes⟩ ∧
      again.map WrittenAttribute.pair = attributes.map WrittenAttribute.pair := by
  induction attributes generalizing mode tag cs with
  | nil => exact ⟨mode, [], by simp [Gathers, feed], hmode, rfl⟩
  | cons attr rest ih =>
    obtain ⟨hattr, haccepted⟩ := List.forall_mem_cons.1 haccepted
    obtain ⟨hfirst, henclosed⟩ := List.forall_mem_cons.1 henclosed
    obtain ⟨between, first, hgathers, hbetween, hpair⟩ :=
      exists_gathers_written (s := s) hattr hfirst hmode cs
    obtain ⟨mode', others, hgathers', hmode', hpairs⟩ :=
      ih haccepted henclosed hbetween (cs ++ attr.render)
    refine ⟨mode', first :: others, by simpa using hgathers.trans hgathers', ?_, ?_⟩
    · simpa [OpenTag.add] using hmode'
    · rw [List.map_cons, List.map_cons, hpair, hpairs]

/-- The name of a tag is read from its text. -/
theorem feed_tagName {name : String} (hname : IsTagName name.toList)
    (hbare : isBareElement name = false) :
    start.feed ('<' :: name.toList) =
      ([], .ok (start.within (.tagName name.toList.reverse) ('<' :: name.toList))) := by
  have hcanonical : Tag.Canonical ⟨name, [], false, false, .start⟩ :=
    ⟨hname.begins, hname.continues, hbare, List.forall_mem_nil _⟩
  exact (gathers_tagName hcanonical).feed_eq rfl

theorem finish_after_startTag (name : String) (selfClosing : Bool) (cs : List Char) :
    (start.cleared.within
      (if !selfClosing && isRawTextElement name then .rawText (Text.lowerAscii name) else .text)
      cs).finish = .ok [.finish (Location.start.advance cs)] := by
  by_cases hraw : (!selfClosing && isRawTextElement name) = true
  · rw [if_pos hraw]
    rfl
  · rw [if_neg hraw]
    rfl

/-- A tag whose values do not hold their quotes is read back. -/
theorem exists_feed_render {tag : StartTag} (htag : tag.Accepted)
    (hbare : isBareElement tag.name = false) (henclosed : ∀ attr ∈ tag.attributes, attr.Enclosed) :
    ∃ again next here, start.feed tag.render = ([.startTag again], .ok next) ∧
      next.finish = .ok [.finish here] ∧ tag.Same again := by
  have hname := feed_tagName htag.name hbare
  obtain ⟨mode, again, hattributes, hmode, hpairs⟩ := exists_gathers_allWritten (s := start)
    htag.attributes henclosed (.name tag.name.toList.reverse) ('<' :: tag.name.toList)
  have hend := feed_tagEnd (s := start) hmode
    ('<' :: tag.name.toList ++ tag.attributes.flatMap WrittenAttribute.render) tag.selfClosing
  have hopening := (feed_append_of_ok hname _).trans hattributes
  refine ⟨_, _, _, (feed_append_of_ok hopening _).trans hend, finish_after_startTag _ _ _, ?_⟩
  exact ⟨by simp, by simpa using hpairs, rfl⟩

/-! ### Values that are cut short -/

/-- A value is read back up to the first quote of the kind that is written around it. -/
theorem exists_gathers_cut (hattr : attr.Accepted) (hcut : ¬ attr.Enclosed)
    (hmode : mode.Holds tag) (cs : List Char) :
    ∃ (first : List Char) (tag' : OpenTag) (again : WrittenAttribute) (rest : List Char),
      attr.render = first ++ rest ∧ s.Gathers cs mode first (.beforeAttribute tag') ∧
      tag'.attributes = again :: tag.attributes ∧ again.value ≠ attr.value := by
  simp only [WrittenAttribute.Enclosed, Classical.not_forall, Classical.not_not] at hcut
  obtain ⟨value, hvalue, hmem⟩ := hcut
  obtain ⟨start, rest, hsplit, hfree⟩ := List.eq_append_cons_of_mem hmem
  have hname := gathers_name (s := s) hattr hmode cs
  have hgathers := hname.trans (gathers_value tag _ _ hattr.getD_quote hfree)
  refine ⟨_, _, _, rest ++ [attr.quote.getD '"'], ?_, hgathers, rfl, ?_⟩
  · simp [WrittenAttribute.render, hvalue, hsplit]
  · -- The value that is read is shorter than the one that was written.
    intro hsame
    rw [hvalue] at hsame
    have hlength := congrArg (fun text => text.toList.length) (Option.some.inj hsame)
    simp [hsplit] at hlength

/-- Once a value has been cut short, the tag that is read is another one. -/
theorem not_pairs_of_feed (haccepted : ∀ attr ∈ attributes, attr.Accepted)
    (hcut : ¬ ∀ attr ∈ attributes, attr.Enclosed) (hmode : mode.Holds tag) {cs rest : List Char}
    {again : StartTag} {events : List Event}
    (hfeed : ((s.within mode cs).feed (attributes.flatMap WrittenAttribute.render ++ rest)).1 =
      .startTag again :: events) :
    again.attributes.map WrittenAttribute.pair ≠
      (tag.attributes.reverse ++ attributes).map WrittenAttribute.pair := by
  induction attributes generalizing mode tag cs with
  | nil => exact absurd (List.forall_mem_nil _) hcut
  | cons attr others ih =>
    obtain ⟨hattr, haccepted⟩ := List.forall_mem_cons.1 haccepted
    by_cases henclosed : attr.Enclosed
    · have hothers : ¬ ∀ attr ∈ others, attr.Enclosed :=
        fun h => hcut (List.forall_mem_cons.2 ⟨henclosed, h⟩)
      obtain ⟨between, first, hgathers, hbetween, hpair⟩ :=
        exists_gathers_written (s := s) hattr henclosed hmode cs
      rw [List.flatMap_cons, List.append_assoc, feed_append_of_ok hgathers] at hfeed
      have hnot := ih haccepted hothers hbetween hfeed
      simpa [OpenTag.add, hpair] using hnot
    · obtain ⟨first, tag', found, left, hrender, hgathers, htag', hvalue⟩ :=
        exists_gathers_cut (s := s) hattr henclosed hmode cs
      rw [List.flatMap_cons, hrender, List.append_assoc, List.append_assoc,
        feed_append_of_ok hgathers] at hfeed
      obtain ⟨more, hmore⟩ := attributes_of_feed (.beforeAttribute (List.suffix_refl _)) hfeed
      intro hpairs
      -- The attribute that was cut short stands where the one that was written stood.
      rw [← hmore, htag'] at hpairs
      simp [WrittenAttribute.pair] at hpairs
      exact hvalue hpairs.1.2

/-- A tag with a value that holds the quote written around it is not read back. -/
theorem not_same_of_feed_render {tag again : StartTag} (htag : tag.Accepted)
    (hbare : isBareElement tag.name = false) (hcut : ¬ ∀ attr ∈ tag.attributes, attr.Enclosed)
    {events : List Event} (hfeed : (start.feed tag.render).1 = .startTag again :: events) :
    ¬ tag.Same again := by
  intro hsame
  have hname := feed_tagName htag.name hbare
  rw [StartTag.render, List.append_assoc, feed_append_of_ok hname] at hfeed
  refine not_pairs_of_feed htag.attributes hcut (.name tag.name.toList.reverse) hfeed ?_
  simpa using hsame.attributes

end Scanner

end Markup

/-! ### Writing the text -/

theorem Stream.write_outText_append (stream : Stream) (first second : String) :
    (stream.write (.outText first)).write (.outText second) =
      stream.write (.outText (first ++ second)) := by
  by_cases hfirst : first = ""
  · subst hfirst
    simp [write]
  by_cases hsecond : second = ""
  · subst hsecond
    simp [write]
  -- The second text is joined to the first, whatever the first is joined to.
  obtain ⟨latestFirst⟩ := stream
  have hboth : ¬ first ++ second = "" := by simp [hfirst]
  simp only [write, String.isEmpty_iff, hfirst, hsecond, hboth, if_false]
  cases latestFirst with
  | nil => rfl
  | cons latest rest => cases latest <;> simp [writeText, String.append_assoc]

/-- What writes a text and does nothing else. -/
def Emit.Says (body : Emit Unit) (cs : List Char) : Prop :=
  body = modify (Session.outText (String.ofList cs))

namespace Emit.Says

variable {body next : Emit Unit} {cs ds : List Char}

theorem text (text : String) : Says (modify (Session.outText text)) text.toList := by
  rw [Says, String.ofList_toList]

theorem nil : Says (pure ()) [] := by
  funext s
  rfl

theorem of_eq (h : Says body cs) (heq : cs = ds) : Says body ds := heq ▸ h

/-- Texts that follow each other make up one text. -/
theorem bind (h : Says body cs) (h' : Says next ds) : Says (body >>= fun _ => next) (cs ++ ds) := by
  rw [Says] at h h' ⊢
  subst h h'
  funext s
  have hstream := s.stream.write_outText_append (String.ofList cs) (String.ofList ds)
  rw [← String.ofList_append] at hstream
  exact congrArg (fun stream => EStateM.Result.ok () { s with stream }) hstream

theorem forM {α : Type} {f : α → Emit Unit} {g : α → List Char} {items : List α}
    (h : ∀ item ∈ items, Says (f item) (g item)) : Says (items.forM f) (items.flatMap g) := by
  induction items with
  | nil => exact nil
  | cons item rest ih =>
    obtain ⟨hitem, hrest⟩ := List.forall_mem_cons.1 h
    exact hitem.bind (ih hrest)

end Emit.Says

namespace Markup

/-- The attribute of the tree, for one that is no directive. -/
def WrittenAttribute.plain (attr : WrittenAttribute) : Attribute :=
  ⟨attr.name, attr.value.elim .absent .literal, attr.quote, attr.location⟩

theorem WrittenAttribute.value_plain_ne_directive (attr : WrittenAttribute) (call : DirectiveCall)
    (e : Expression) : attr.plain.value ≠ .directive call e := by
  rw [plain]
  cases attr.value <;> exact nofun

theorem mapM_ofWritten_eq_plain
    (h : ∀ attr ∈ attributes, DirectiveCall.ofAttributeName? attr.name = none) :
    attributes.mapM Attribute.ofWritten = .ok (attributes.map WrittenAttribute.plain) := by
  induction attributes with
  | nil => rfl
  | cons attr rest ih =>
    obtain ⟨hattr, hrest⟩ := List.forall_mem_cons.1 h
    rw [List.mapM_cons, Attribute.ofWritten_of_none hattr, ih hrest]
    rfl

theorem says_emitLiteralAttribute {name text : String} (htext : IsLiteral text.toList)
    (here : Location) (quote : Char) :
    Emit.Says (emitLiteralAttribute name text here (String.singleton quote))
      (' ' :: name.toList ++ ('=' :: quote :: text.toList ++ [quote])) := by
  -- The value is a single fragment of text, or none if it is empty.
  have hvalue (placement? : Option Placement) :
      Emit.Says ((Fragment.flush text.toList.reverse []).forM (Fragment.emit placement?))
        text.toList := by
    cases hchars : text.toList.reverse with
    | nil => exact .of_eq .nil (by simpa using hchars.symm)
    | cons c rest =>
      have htext : text = String.ofList (c :: rest).reverse := by
        rw [← hchars, List.reverse_reverse, String.ofList_toList]
      have hsingle : Fragment.flush (c :: rest) [] = [.text text] := by
        rw [htext]
        rfl
      rw [hsingle]
      exact .of_eq ((Emit.Says.text text).bind .nil) (List.append_nil _)
  have hfragments : emitLiteralAttribute name text here (String.singleton quote) =
      modify (Session.outText (" " ++ name ++ "=" ++ String.singleton quote)) >>= fun _ =>
        (Fragment.flush text.toList.reverse []).forM
          (Fragment.emit (some (.ofAttribute name))) >>= fun _ =>
          modify (Session.outText (String.singleton quote)) := by
    rw [emitLiteralAttribute, Fragment.parse_of_isLiteral htext]
    cases text.toList.reverse <;> rfl
  rw [hfragments]
  refine .of_eq ((Emit.Says.text _).bind ((hvalue _).bind (.text _))) ?_
  simp

theorem says_emit_plain (h : ∀ value, attr.value = some value → IsLiteral value.toList) :
    Emit.Says attr.plain.emit attr.render := by
  cases hvalue : attr.value with
  | none =>
    have hsays := Emit.Says.text (" " ++ attr.name)
    simpa [WrittenAttribute.plain, Attribute.emit, WrittenAttribute.render, hvalue] using hsays
  | some value =>
    have hsays : Emit.Says (emitLiteralAttribute attr.name value attr.plain.valueLocation
        (String.singleton (attr.quote.getD '"'))) _ :=
      says_emitLiteralAttribute (h value hvalue) _ _
    simpa [WrittenAttribute.plain, Attribute.emit, WrittenAttribute.render, hvalue] using hsays

theorem invokeAll_eq_nil {registry : Registry} {attributes : List Attribute}
    (h : ∀ attr ∈ attributes, ∀ call e, attr.value ≠ .directive call e) :
    invokeAll registry attributes = pure [] := by
  induction attributes with
  | nil => rfl
  | cons attr rest ih =>
    obtain ⟨hattr, hrest⟩ := List.forall_mem_cons.1 h
    rw [invokeAll]
    split
    · next call e hvalue => exact absurd hvalue (hattr call e)
    · exact ih hrest

/-- The tag of the tree, for a start tag without directives. -/
def StartTag.plain (tag : StartTag) (hasEndTag : Bool) : Tag :=
  ⟨tag.name, tag.attributes.map WrittenAttribute.plain, tag.selfClosing, hasEndTag, tag.location⟩

section Tags

variable {registry : Registry} {tag : StartTag} {hasEndTag : Bool}

theorem ne_directive_of_mem_plain : ∀ attr ∈ (tag.plain hasEndTag).attributes,
    ∀ call e, attr.value ≠ .directive call e := by
  intro attr hattr call e
  obtain ⟨written, -, rfl⟩ := List.mem_map.1 hattr
  exact written.value_plain_ne_directive call e

theorem says_emitStartTag
    (h : ∀ attr ∈ tag.attributes, ∀ value, attr.value = some value → IsLiteral value.toList) :
    Emit.Says (emitStartTag registry (tag.plain hasEndTag) [] Effect.none .never) tag.render := by
  have hwritten : (tag.plain hasEndTag).attributes.filter
      (fun attr => isWritten registry attr && !Effect.none.overrides attr.name) =
        tag.attributes.map WrittenAttribute.plain := by
    refine List.filter_eq_self.2 ?_
    intro attr hattr
    rw [isWritten_of_ne_directive (ne_directive_of_mem_plain attr hattr)]
    rfl
  have hattributes : Emit.Says (emitAttributes [] (tag.attributes.map WrittenAttribute.plain))
      (tag.attributes.flatMap WrittenAttribute.render) := by
    rw [emitAttributes, List.forM_eq_forM, List.forM_map]
    refine .forM ?_
    intro attr hattr
    exact .of_eq (Emit.Says.nil.bind ((says_emit_plain (h attr hattr)).bind .nil)) (by simp)
  rw [emitStartTag, hwritten]
  refine .of_eq ((Emit.Says.text "<").bind ((Emit.Says.text tag.name).bind
    (Emit.Says.nil.bind (hattributes.bind (Emit.Says.nil.bind (.text _)))))) ?_
  rw [StartTag.render, show (tag.plain hasEndTag).selfClosing = tag.selfClosing from rfl]
  cases tag.selfClosing <;> simp

/-! ### Elements without directives

Without invocations the hooks do nothing. -/

theorem emitOpening_plain
    (h : ∀ attr ∈ tag.attributes, ∀ value, attr.value = some value → IsLiteral value.toList) :
    emitOpening registry (tag.plain hasEndTag) [] Effect.none .never =
      modify (Session.outText (String.ofList tag.render)) := by
  have hhooks : emitOpening registry (tag.plain hasEndTag) [] Effect.none .never =
    (pure () >>= fun _ => emitStartTag registry (tag.plain hasEndTag) [] Effect.none .never >>=
      fun _ => pure ()) := rfl
  rw [hhooks, pure_bind, bind_pure_unit]
  exact says_emitStartTag h

theorem emitContent_nil (content : Emit Unit) : emitContent [] Effect.none content = content := by
  have hhooks : emitContent [] Effect.none content =
    (pure () >>= fun _ => content >>= fun _ => pure ()) := rfl
  rw [hhooks, pure_bind, bind_pure_unit]

theorem emitClosing_plain :
    emitClosing (tag.plain hasEndTag) [] Effect.none .never =
      if hasEndTag ∧ !tag.selfClosing then
        modify (Session.outText (String.ofList ('<' :: '/' :: tag.name.toList ++ ['>'])))
      else pure () := by
  have hend : Emit.Says (emitEndTag (tag.plain hasEndTag) Effect.none .never)
      ('<' :: '/' :: tag.name.toList ++ ['>']) := by
    refine .of_eq ((Emit.Says.text "</").bind ((Emit.Says.text tag.name).bind (.text ">"))) ?_
    simp
  rw [emitClosing]
  by_cases hclose : hasEndTag ∧ !tag.selfClosing
  · rw [if_pos hclose, if_pos ⟨by decide, hclose⟩]
    have hhooks : (Hook.beforeTagClose.run Invocation.run [] >>= fun _ =>
      emitEndTag (tag.plain hasEndTag) Effect.none .never >>= fun _ =>
        Hook.afterTagClose.run Invocation.run []) =
      (pure () >>= fun _ => emitEndTag (tag.plain hasEndTag) Effect.none .never >>= fun _ =>
        pure ()) := rfl
    rw [hhooks, pure_bind, bind_pure_unit]
    exact hend
  · rw [if_neg hclose, if_neg fun hboth => hclose hboth.2]

/-- Writes the text of a start tag, the content, and the end tag if there is one. -/
def StartTag.emitAround (tag : StartTag) (hasEndTag : Bool) (content : Emit Unit) : Emit Unit := do
  modify (Session.outText (String.ofList tag.render))
  content
  if hasEndTag ∧ !tag.selfClosing then
    modify (Session.outText (String.ofList ('<' :: '/' :: tag.name.toList ++ ['>'])))

theorem emitTags_plain (hbare : isBareElement tag.name = false)
    (h : ∀ attr ∈ tag.attributes, ∀ value, attr.value = some value → IsLiteral value.toList)
    (content : Emit Unit) :
    emitTags registry (tag.plain hasEndTag) [] content = tag.emitAround hasEndTag content := by
  have heffect : Effect.all ([].map Invocation.effect) = Effect.none := rfl
  have hskip : (if isBareElement (tag.plain hasEndTag).name then TagSkip.always
      else Effect.none.skip) = .never := if_neg (by simp [StartTag.plain, hbare])
  rw [emitTags]
  simp only [heffect, hskip, emitOpening_plain h, emitContent_nil, emitClosing_plain]
  rfl

/-- An element without directives and expressions in its tag is written as its tags around its
content; one that holds raw text is entered before and left after. -/
theorem emitElement_eq (hbare : isBareElement tag.name = false)
    (h : ∀ attr ∈ tag.attributes, ∀ value, attr.value = some value → IsLiteral value.toList)
    (content : Emit Unit) :
    emitElement registry (tag.plain hasEndTag) content = (do
      if isRawTextElement tag.name then modify Session.enterRawText
      tag.emitAround hasEndTag content
      if isRawTextElement tag.name then modify Session.leaveRawText) := by
  have hinvocations : elementOfTag registry (tag.plain hasEndTag) =
      pure { Element.ofName tag.name with attributes := (tag.plain hasEndTag).attributes } := by
    rw [elementOfTag, invokeAll_eq_nil ne_directive_of_mem_plain]
    rfl
  -- With the hooks gone, what stands inside is the same; it is entered and left alike.
  have hinside (last : Emit Unit) :
      (pure () >>= fun _ => emitTags registry (tag.plain hasEndTag) [] content >>= fun _ =>
        pure () >>= fun _ => last) = (tag.emitAround hasEndTag content >>= fun _ => last) := by
    simp only [pure_bind, emitTags_plain hbare h]
  rw [emitElement, hinvocations, pure_bind]
  exact congrArg (fun body : Emit Unit =>
    if isRawTextElement tag.name then modify Session.enterRawText >>= fun _ => body else body)
    (hinside (if isRawTextElement tag.name then modify Session.leaveRawText else pure ()))

end Tags

/-- **Writing a start tag.** Let the scanner report a start tag in any text, other than that of the
element without tags, and let none of its attributes be a directive and none of its values hold an
expression. Then its attributes can be read, and the walk writes the element as the text of the tag
around the content. A new scanner reads this text as a single start tag with the same name, the same
attributes with the same values in the same order, and a slash at the end or not, just if no value
that stands without quotes holds a double quote. -/
theorem readBack_iff {source : List Char} {tag : StartTag}
    (hscanned : .startTag tag ∈ (Scanner.start.feed source).1)
    (hbare : isBareElement tag.name = false)
    (hdirective : ∀ attr ∈ tag.attributes, DirectiveCall.ofAttributeName? attr.name = none)
    (hliteral : ∀ attr ∈ tag.attributes, ∀ value, attr.value = some value →
      IsLiteral value.toList) :
    (∃ attributes, tag.attributes.mapM Attribute.ofWritten = .ok attributes ∧
      ∀ (registry : Registry) (hasEndTag : Bool) (content : Emit Unit),
        emitElement registry ⟨tag.name, attributes, tag.selfClosing, hasEndTag, tag.location⟩
          content = (do
            if isRawTextElement tag.name then modify Session.enterRawText
            tag.emitAround hasEndTag content
            if isRawTextElement tag.name then modify Session.leaveRawText)) ∧
      ((∃ again next here, Scanner.start.feed tag.render = ([.startTag again], .ok next) ∧
          next.finish = .ok [.finish here] ∧ tag.Same again) ↔
        ∀ attr ∈ tag.attributes, attr.quote = none → ∀ value, attr.value = some value →
          '"' ∉ value.toList) := by
  have haccepted : tag.Accepted := Scanner.accepted_of_feed (s := .start) trivial hscanned
  have henclosed : (∀ attr ∈ tag.attributes, attr.Enclosed) ↔ ∀ attr ∈ tag.attributes,
      attr.quote = none → ∀ value, attr.value = some value → '"' ∉ value.toList :=
    forall₂_congr fun attr hattr => (haccepted.attributes attr hattr).enclosed_iff
  refine ⟨⟨_, mapM_ofWritten_eq_plain hdirective, ?_⟩, ?_⟩
  · intro registry hasEndTag content
    exact emitElement_eq hbare hliteral content
  · rw [← henclosed]
    constructor
    · rintro ⟨again, next, here, hfeed, -, hsame⟩
      by_contra hcut
      exact Scanner.not_same_of_feed_render haccepted hbare hcut (congrArg Prod.fst hfeed) hsame
    · exact Scanner.exists_feed_render haccepted hbare

/-- A tag with a value of each kind. -/
def quotesTag : StartTag where
  name := "br"
  attributes := [⟨"class", some "wide", none, ⟨1, 5⟩⟩, ⟨"title", some "a\"b", some '\'', ⟨1, 16⟩⟩,
    ⟨"hidden", none, none, ⟨1, 28⟩⟩]
  selfClosing := true
  location := ⟨1, 1⟩

theorem readBack_iff_quotes :
    .startTag quotesTag ∈ (Scanner.start.feed "<br class=wide title='a\"b' hidden/>".toList).1 ∧
      String.ofList quotesTag.render = "<br class=\"wide\" title='a\"b' hidden/>" ∧
      ∃ again next here, Scanner.start.feed quotesTag.render = ([.startTag again], .ok next) ∧
        next.finish = .ok [.finish here] ∧ quotesTag.Same again := by
  have hscanned : .startTag quotesTag ∈
      (Scanner.start.feed "<br class=wide title='a\"b' hidden/>".toList).1 := by decide +kernel
  have hdirective : ∀ attr ∈ quotesTag.attributes,
      DirectiveCall.ofAttributeName? attr.name = none := by decide +kernel
  have hliteral : ∀ attr ∈ quotesTag.attributes, ∀ value, attr.value = some value →
      IsLiteral value.toList := by
    have hall : ∀ attr ∈ quotesTag.attributes, ∀ value ∈ attr.value.toList,
      IsLiteral value.toList := by decide +kernel
    intro attr hattr value hvalue
    exact hall attr hattr value (by rw [hvalue]; exact List.mem_singleton.2 rfl)
  have hfree : ∀ attr ∈ quotesTag.attributes, attr.quote = none → ∀ value,
      attr.value = some value → '"' ∉ value.toList := by
    have hall : ∀ attr ∈ quotesTag.attributes, attr.quote = none → ∀ value ∈ attr.value.toList,
      '"' ∉ value.toList := by decide +kernel
    intro attr hattr hquote value hvalue
    exact hall attr hattr hquote value (by rw [hvalue]; exact List.mem_singleton.2 rfl)
  have hreadBack := (readBack_iff hscanned (by decide +kernel) hdirective hliteral).2
  exact ⟨hscanned, by decide +kernel, hreadBack.2 hfree⟩

/-- A tag whose value stands without quotes and holds a double quote. -/
def bareQuoteTag : StartTag := ⟨"a", [⟨"b", some "x\"y", none, ⟨1, 4⟩⟩], false, ⟨1, 1⟩⟩

/-- The tag is accepted, and written between quotes that its value ends: the scanner fails in the
text, before it has read a tag. -/
theorem bareQuote_not_readBack :
    .startTag bareQuoteTag ∈ (Scanner.start.feed "<a b=x\"y>".toList).1 ∧
      DirectiveCall.ofAttributeName? "b" = none ∧ IsLiteral "x\"y".toList ∧
      String.ofList bareQuoteTag.render = "<a b=\"x\"y\">" ∧
      ∃ fault, Scanner.start.feed bareQuoteTag.render = ([], .error fault) :=
  ⟨by decide +kernel, by decide +kernel, by decide +kernel, by decide +kernel, _, rfl⟩

end Markup

end Stencil
