import Stencil.Proofs.AcceptedTags
import Stencil.Proofs.DirectiveOrder
import Stencil.Proofs.FragmentPlaces

/-!
# Where the expressions of a template stand

The walk reads texts, comments and literal values of attributes for expressions, each from a place
that it takes from the tree. For texts and comments this is where they stand in the source. The
value of an attribute is taken to stand behind the name, one character for the equals sign and one
for a quote, so blanks around the sign put all expressions up to the next line at wrong places.

## Main definitions

* `Template.readings`: the texts that the walk reads, and from where
* `Event.Placed`: the texts of an event are read, and which of their expressions are placed right

## Main results

* `valueLocation_eq_iff`: when the value of an attribute stands where it is taken to stand
* `Template.exists_placed`: which expressions of a source are located where they stand
-/

namespace Stencil.Markup

variable {here : Location}

/-! ### Texts that are read -/

/-- A text that is read for expressions, and where reading begins. -/
structure Reading where
  text : String
  location : Location
  deriving DecidableEq

/-- What is read of an attribute of a tree. -/
def Attribute.readings (attr : Attribute) : List Reading :=
  match attr.value with
  | .literal text => [⟨text, attr.valueLocation⟩]
  | _ => []

mutual

/-- What is read of a node and of all below it. -/
def Node.readings : Node → List Reading
  | .text text here => [⟨text, here⟩]
  | .comment text here => if isAuthorComment text then [] else [⟨text, here.shift 4⟩]
  | .element tag children => tag.attributes.flatMap Attribute.readings ++ readingsOf children

/-- What is read of a forest. -/
def readingsOf : List Node → List Reading
  | [] => []
  | node :: rest => node.readings ++ readingsOf rest

end

/-- What is read of a template, in the order of its tree. -/
def Template.readings (template : Template) : List Reading :=
  readingsOf template.children

/-- What is read of an attribute of a source: nothing of a directive, and of others the value. -/
def WrittenAttribute.readings (attr : WrittenAttribute) : List Reading :=
  match DirectiveCall.ofAttributeName? attr.name, attr.value with
  | none, some text => [⟨text, valueLocation attr.name attr.quote attr.location⟩]
  | _, _ => []

/-- What is read of an event. -/
def Event.readings : Event → List Reading
  | .text written here => [⟨written, here⟩]
  | .comment written here => if isAuthorComment written then [] else [⟨written, here.shift 4⟩]
  | .startTag tag => tag.attributes.flatMap WrittenAttribute.readings
  | .endTag .. => []
  | .finish _ => []

theorem readingsOf_append (first second : List Node) :
    readingsOf (first ++ second) = readingsOf first ++ readingsOf second := by
  induction first with
  | nil => rfl
  | cons node rest ih => rw [List.cons_append, readingsOf, readingsOf, ih, List.append_assoc]

theorem Attribute.readings_ofWritten {written : WrittenAttribute} {attr : Attribute}
    (h : ofWritten written = .ok attr) : attr.readings = written.readings := by
  unfold WrittenAttribute.readings
  cases hcall : DirectiveCall.ofAttributeName? written.name with
  | none =>
    rw [ofWritten_of_none hcall] at h
    obtain rfl := Except.ok.inj h
    cases written.value <;> rfl
  | some call =>
    rw [ofWritten_of_some hcall] at h
    obtain ⟨e, -, h⟩ := exists_of_bind_eq_ok h
    obtain rfl := Except.ok.inj h
    rfl

theorem flatMap_readings_mapM {written : List WrittenAttribute} {attributes : List Attribute}
    (h : written.mapM Attribute.ofWritten = .ok attributes) :
    attributes.flatMap Attribute.readings = written.flatMap WrittenAttribute.readings := by
  replace h := forall₂_of_mapM h
  induction h with
  | nil => rfl
  | cons hattr _ ih =>
    rw [List.flatMap_cons, List.flatMap_cons, Attribute.readings_ofWritten hattr, ih]

/-- What is read of an element that is open. -/
def OpenElement.readings (element : OpenElement) : List Reading :=
  element.attributes.flatMap Attribute.readings ++ readingsOf element.children.reverse

namespace Builder

variable {b next : Builder} {event : Event}

/-- What is read of the events so far. -/
def readings (b : Builder) : List Reading :=
  readingsOf b.forest.reverse ++ b.opened.reverse.flatMap OpenElement.readings

theorem readings_attach (b : Builder) (node : Node) :
    (b.attach node).readings = b.readings ++ node.readings := by
  obtain ⟨opened, forest⟩ := b
  cases opened with
  | nil => simp [attach, readings, readingsOf_append, readingsOf]
  | cons inner outer =>
    simp [attach, readings, OpenElement.readings, readingsOf_append, readingsOf]

/-- Each event adds what is read of it. -/
theorem Takes.readings_eq (h : b.Takes event next) :
    next.readings = b.readings ++ event.readings := by
  cases h with
  | text | comment => exact b.readings_attach _
  | empty hread =>
    rw [Event.readings, ← flatMap_readings_mapM hread, readings_attach, Node.readings, readingsOf,
      List.append_nil]
  | opens hread =>
    rw [Event.readings, ← flatMap_readings_mapM hread]
    simp [readings, OpenElement.readings, readingsOf]
  -- The element that ends is read where it was open.
  | closes _ hopened =>
    rw [readings_attach]
    simp [readings, hopened, closed, Node.readings, OpenElement.readings, Event.readings]
  | voidEnd | finish => exact (List.append_nil _).symm

/-- What is read of events, by induction on them. -/
theorem readings_takeAll {events : List Event} (h : b.takeAll events = .ok next) :
    next.readings = b.readings ++ events.flatMap Event.readings := by
  induction events generalizing b with
  | nil =>
    obtain rfl := Except.ok.inj h
    rw [List.flatMap_nil, List.append_nil]
  | cons event rest ih =>
    obtain ⟨between, hbetween, h⟩ := exists_of_takeAll_cons h
    rw [ih h, hbetween.readings_eq, List.flatMap_cons, List.append_assoc]

end Builder

/-! ### The value of an attribute -/

namespace WrittenAttribute

variable {attr : WrittenAttribute} {value : String} {spelled : List Char}

/-- What stands in front of the value of an attribute, with `sign` behind its name. -/
def opening (attr : WrittenAttribute) (sign : List Char) : List Char :=
  attr.name.toList ++ sign ++ attr.quote.toList

theorem Spelled.exists_opening (h : attr.Spelled spelled) (hvalue : attr.value = some value) :
    ∃ sign, IsAssignment sign ∧
      spelled = attr.opening sign ++ value.toList ++ attr.quote.toList := by
  unfold Spelled at h
  rw [hvalue] at h
  cases hquote : attr.quote with
  | none =>
    rw [hquote] at h
    obtain ⟨sign, hsign, rfl⟩ := h
    exact ⟨sign, hsign, by simp [opening, hquote]⟩
  | some quote =>
    rw [hquote] at h
    obtain ⟨sign, hsign, -, rfl⟩ := h
    exact ⟨sign, hsign, by simp [opening, hquote]⟩

theorem Accepted.notMem_name (h : attr.Accepted) : '\n' ∉ attr.name.toList := by
  intro hmem
  exact absurd (h.name.continues _ hmem) (by decide)

theorem Accepted.notMem_quote (h : attr.Accepted) : '\n' ∉ attr.quote.toList := by
  intro hmem
  obtain ⟨hquote, -⟩ := h.quote '\n' (Option.mem_toList.1 hmem)
  exact absurd hquote (by decide)

end WrittenAttribute

theorem length_of_isAssignment {sign : List Char} (h : IsAssignment sign) :
    sign.length = 1 ↔ sign = ['='] := by
  obtain ⟨before, after, rfl, -⟩ := h
  constructor
  · intro hlength
    rw [List.length_append, List.length_cons] at hlength
    obtain rfl := List.length_eq_zero_iff.1 (by omega : before.length = 0)
    obtain rfl := List.length_eq_zero_iff.1 (by omega : after.length = 0)
    rfl
  · intro heq
    rw [heq]
    rfl

/-- The value is taken to stand in the line where it stands just if the name does. -/
theorem line_valueLocation_eq_iff {attr : WrittenAttribute} (hattr : attr.Accepted)
    (sign : List Char) :
    (valueLocation attr.name attr.quote attr.location).line =
      (attr.location.advance (attr.opening sign)).line ↔ '\n' ∉ sign := by
  have hcount : (attr.opening sign).count '\n' = sign.count '\n' := by
    rw [WrittenAttribute.opening, List.count_append, List.count_append,
      List.count_eq_zero.2 hattr.notMem_name, List.count_eq_zero.2 hattr.notMem_quote]
    omega
  rw [Location.line_advance, hcount, ← List.count_eq_zero]
  exact Nat.left_eq_add

/-- The value stands where it is taken to stand just if there is nothing but an equals sign. -/
theorem valueLocation_eq_iff {attr : WrittenAttribute} (hattr : attr.Accepted) {sign : List Char}
    (hsign : IsAssignment sign) :
    valueLocation attr.name attr.quote attr.location = attr.location.advance (attr.opening sign) ↔
      sign = ['='] := by
  by_cases hline : '\n' ∈ sign
  · constructor
    · intro heq
      exact absurd hline ((line_valueLocation_eq_iff hattr sign).1 (congrArg Location.line heq))
    · rintro rfl
      exact absurd hline (by decide)
  · have hopening : '\n' ∉ attr.opening sign := by
      simp [WrittenAttribute.opening, hattr.notMem_name, hattr.notMem_quote, hline]
    have hquote : attr.quote.toList.length = if attr.quote.isSome then 1 else 0 := by
      cases attr.quote <;> rfl
    rw [Location.advance_eq_shift _ _ hopening, ← length_of_isAssignment hsign, valueLocation,
      WrittenAttribute.opening, List.length_append, List.length_append, String.length_toList,
      hquote]
    simp only [Location.shift, Location.mk.injEq, true_and]
    omega

/-- An attribute among others stands behind those before it. -/
theorem SpelledAttributes.split {source : List Char}
    {attributes first last : List WrittenAttribute} {attr : WrittenAttribute}
    (h : SpelledAttributes here source attributes) (heq : attributes = first ++ attr :: last) :
    ∃ before spelled after, source = before ++ (spelled ++ after) ∧
      SpelledAttributes here before first ∧ attr.Spelled spelled ∧
      attr.location = here.advance before := by
  induction h generalizing last with
  | nil => simp at heq
  | @gap source blanks attributes _ hblanks ih =>
    obtain ⟨before, spelled, after, rfl, hfound⟩ := ih heq
    exact ⟨before, spelled, after ++ blanks, by simp, hfound⟩
  | @«attribute» source spelled attributes newest h hattr hlocation ih =>
    rcases List.eq_nil_or_concat last with rfl | ⟨others, final, rfl⟩
    · obtain ⟨rfl, hlast⟩ := List.append_inj' heq rfl
      obtain rfl := List.singleton_inj.1 hlast
      exact ⟨source, spelled, [], by simp, h, hattr, hlocation⟩
    · rw [List.concat_eq_append, ← List.cons_append, ← List.append_assoc] at heq
      obtain ⟨rfl, -⟩ := List.append_inj' heq rfl
      obtain ⟨before, found, after, rfl, hfound⟩ := ih rfl
      exact ⟨before, found, after ++ spelled, by simp, hfound⟩

/-! ### Events -/

/-- The fragments of a text that is read from `here` on and stands behind `before` in its source.
They come with their slices of the text. An expression is located where it stands in the source just
if `p` holds of what stands before it in the text. -/
def Placed (before : List Char) (p : List Char → Prop) (here : Location) (text : String) : Prop :=
  ∀ fragments, Fragment.parse here text = .ok fragments →
    ∃ parts, parts.map Prod.fst = fragments ∧ parts.flatMap Prod.snd = text.toList ∧
      Fragment.Segmented here parts ∧
      ∀ lead e place slice rest, parts = lead ++ (Fragment.expression e place, slice) :: rest →
        (place = Location.start.advance (before ++ lead.flatMap Prod.snd) ↔
          p (lead.flatMap Prod.snd))

theorem placed_of_iff {before : List Char} {p : List Char → Prop}
    (hp : ∀ lead, p lead ↔ here = Location.start.advance before ∨
      here.line = (Location.start.advance before).line ∧ '\n' ∈ lead) (text : String) :
    Placed before p here text := by
  intro fragments hparse
  obtain ⟨parts, hparts, hslices, hsegmented⟩ := Fragment.exists_segmented hparse
  refine ⟨parts, hparts, hslices, hsegmented, ?_⟩
  rintro lead e place slice rest rfl
  rw [hsegmented.expression, Location.advance_append, Location.advance_eq_iff, hp]

theorem placed_of_eq {before : List Char} (h : here = Location.start.advance before)
    (text : String) :
    Placed before (fun _ => True) here text :=
  placed_of_iff (fun _ => iff_of_true trivial (.inl h)) text

/-- Where the texts of an event stand, whose slice stands behind `before` in the source, and where
they are read from. The expressions of a text or a comment are located right. In the value of an
attribute they are if the equals sign stands alone, or else if the name and the value stand in one
line and the expression in a later one. -/
def Event.Placed (before slice : List Char) : Event → Prop
  | .text written here => Markup.Placed before (fun _ => True) here written
  | .comment written here =>
    Markup.Placed (before ++ "<!--".toList) (fun _ => True) (here.shift 4) written
  | .startTag tag => ∀ first attr last value, tag.attributes = first ++ attr :: last →
    attr.value = some value →
      ∃ lead sign, IsAssignment sign ∧
        SpelledAttributes (Location.start.advance (before ++ '<' :: tag.name.toList)) lead first ∧
        '<' :: tag.name.toList ++ lead ++ attr.opening sign ++ value.toList <+: slice ∧
        Markup.Placed (before ++ ('<' :: tag.name.toList ++ lead ++ attr.opening sign))
          (fun ahead => sign = ['='] ∨ '\n' ∉ sign ∧ '\n' ∈ ahead)
          (valueLocation attr.name attr.quote attr.location) value
  | .endTag .. => True
  | .finish _ => True

/-- The texts of an event that is spelled in the source. -/
theorem Event.Spelled.placed {before slice : List Char} {event : Event}
    (h : event.Spelled (Location.start.advance before) slice)
    (haccepted : ∀ tag, event = .startTag tag → tag.Accepted) : event.Placed before slice := by
  cases event with
  | text written here => exact placed_of_eq h.1 written
  | comment written here =>
    obtain ⟨rfl, -⟩ := h
    refine placed_of_eq ?_ written
    rw [Location.advance_append]
    rfl
  | startTag tag =>
    obtain ⟨-, body, hbody, hslice⟩ := h
    rw [← Location.advance_append] at hbody
    intro first attr last value hattributes hvalue
    obtain ⟨lead, spelled, after, rfl, hlead, hattr, hlocation⟩ := hbody.split hattributes
    obtain ⟨sign, hsign, rfl⟩ := hattr.exists_opening hvalue
    have hmem : attr ∈ tag.attributes := by simp [hattributes]
    have hvalid := (haccepted tag rfl).attributes attr hmem
    refine ⟨lead, sign, hsign, hlead, ?_, placed_of_iff (fun ahead => ?_) value⟩
    · refine ⟨attr.quote.toList ++ after ++ if tag.selfClosing then ['/', '>'] else ['>'], ?_⟩
      rw [hslice]
      simp
    · have hstart : Location.start.advance
          (before ++ ('<' :: tag.name.toList ++ lead ++ attr.opening sign)) =
          attr.location.advance (attr.opening sign) := by
        rw [hlocation, ← Location.advance_append, ← Location.advance_append]
        simp
      rw [hstart, valueLocation_eq_iff hvalid hsign, line_valueLocation_eq_iff hvalid]
  | endTag name here => trivial
  | finish here => trivial

theorem Segmented.spelled {before after : List (Event × List Char)} {event : Event}
    {slice : List Char} (h : Segmented here (before ++ (event, slice) :: after)) :
    event.Spelled (here.advance (before.flatMap Prod.snd)) slice := by
  induction before generalizing here with
  | nil => exact h.1
  | cons first before ih =>
    rw [List.flatMap_cons, Location.advance_append]
    exact ih h.2.2

namespace Scanner

/-- The start tags of a text are accepted: they are reported for characters, and none for the
end. -/
theorem accepted_of_events {source : List Char} {found : List Event}
    (h : events source = .ok found) {tag : StartTag} (htag : .startTag tag ∈ found) :
    tag.Accepted := by
  obtain ⟨first, s, last, hfeed, hfinish, rfl⟩ := events_eq_ok_iff.1 h
  rcases List.mem_append.1 htag with hmem | hmem
  · have haccepts : start.mode.Accepted := trivial
    exact accepted_of_feed haccepts (by rwa [hfeed])
  · exact absurd hmem (startTag_notMem_of_finish hfinish)

/-- A source is the slices of its events, and the texts of all of them are placed. -/
theorem exists_placed_events {source : List Char} {found : List Event}
    (h : events source = .ok found) :
    ∃ parts, found = parts.map Prod.fst ++ [.finish (Location.start.advance source)] ∧
      parts.flatMap Prod.snd = source ∧ Segmented .start parts ∧
      ∀ before event slice after, parts = before ++ (event, slice) :: after →
        event.Placed (before.flatMap Prod.snd) slice := by
  have haccepted : ∀ tag, .startTag tag ∈ found → tag.Accepted := fun _ => accepted_of_events h
  obtain ⟨first, s, last, hfeed, hfinish, rfl⟩ := events_eq_ok_iff.1 h
  obtain ⟨parts, rfl, htracks, hlocation⟩ := Tracks.start.feed rfl hfeed
  obtain ⟨more, rfl, hsegmented, hsource⟩ := htracks.finish hfinish
  have hparts : Segmented .start (parts ++ more) := hsegmented
  refine ⟨parts ++ more, ?_, hsource, hparts, ?_⟩
  · rw [hlocation, List.map_append, List.append_assoc]
    rfl
  · intro before event slice after heq
    rw [heq] at hparts
    refine hparts.spelled.placed fun tag htag => haccepted tag ?_
    rw [← List.append_assoc, ← List.map_append]
    exact List.mem_append_left _ (List.mem_map.2 ⟨(event, slice), by simp [heq], htag⟩)

end Scanner

/-! ### Templates -/

theorem Template.exists_encode {size : Nat} {bytes : List UInt8} {template : Template}
    (h : parse size bytes = .ok template) :
    ∃ source, Bytes.encode source = bytes ∧ ofText source = .ok template := by
  by_cases hencode : ∃ source, Bytes.encode source = bytes
  · obtain ⟨source, rfl⟩ := hencode
    rw [parse_encode] at h
    exact ⟨source, rfl, h⟩
  · rw [← (Bytes.reads_pieces size bytes).flatten] at hencode
    obtain ⟨failure, hfailure⟩ := ofPieces_of_not_encode hencode
    rw [parse, hfailure] at h
    cases h

/-- The walk reads what the events of the text hold, in their order. -/
theorem Template.readings_ofText {source : List Char} {found : List Event} {here : Location}
    {template : Template} (h : ofText source = .ok template)
    (hevents : Scanner.events source = .ok (found ++ [.finish here])) :
    template.readings = found.flatMap Event.readings := by
  obtain ⟨events, b, hfound, hb, rfl⟩ := ofText_eq_ok_iff.1 h
  obtain rfl := Except.ok.inj (hfound.symm.trans hevents)
  obtain ⟨hb, hopened⟩ := Builder.takeAll_finish.1 hb
  have hreadings := Builder.readings_takeAll hb
  rw [Builder.readings, hopened] at hreadings
  simpa [readings, Builder.tree, Builder.readings, Builder.start, readingsOf] using hreadings

/-- Where the expressions of a source stand. The source is cut into the slices of its events, and
the walk reads the texts that they hold, in this order. What it finds in a text or in a comment is
located where it stands in the source. In the value of an attribute an expression is located where
it stands just if the equals sign stands alone, or if the name and the value stand in one line and
the expression in a later one. Commands and diagnostics point at the locations of the expressions
that they are made from. -/
theorem Template.exists_placed {size : Nat} {bytes : List UInt8} {template : Template}
    (h : parse size bytes = .ok template) :
    (∃ source parts, Bytes.encode source = bytes ∧ parts.flatMap Prod.snd = source ∧
      Segmented .start parts ∧ template.readings = (parts.map Prod.fst).flatMap Event.readings ∧
      ∀ before event slice after, parts = before ++ (event, slice) :: after →
        event.Placed (before.flatMap Prod.snd) slice) ∧
    ∀ registry m text here fragments (s : Session), ReadsFrom registry m text here →
      Fragment.parse here text = .ok fragments → s.scope.Proper →
        ∃ t, m.run s = .ok () t ∧ s.Points t (Fragment.places fragments) := by
  constructor
  · obtain ⟨source, hencode, hsource⟩ := exists_encode h
    obtain ⟨events, b, hevents, -, -⟩ := ofText_eq_ok_iff.1 hsource
    obtain ⟨parts, rfl, hslices, hsegmented, hplaced⟩ := Scanner.exists_placed_events hevents
    exact ⟨source, parts, hencode, hslices, hsegmented, readings_ofText hsource hevents, hplaced⟩
  · intro registry m text here fragments s hreads hparse hproper
    exact hreads.exists_points hparse hproper

/-- A text, a comment, and attributes with and without quotes and blanks. -/
def placesSource : List Char :=
  ("a $\x7bx\x7d\n<!-- $\x7by\x7d --><br b= '$\x7bz\x7d\n$\x7bu\x7d' " ++
    "c=\"$\x7bv\x7d\" d=$\x7bw\x7d>").toList

/-- The value of the first attribute is read from one column before it. -/
theorem Template.exists_placed_attributes :
    ∃ template, parse 16 (Bytes.encode placesSource) = .ok template ∧
      template.readings =
        [⟨"a $\x7bx\x7d\n", ⟨1, 1⟩⟩, ⟨" $\x7by\x7d ", ⟨2, 5⟩⟩, ⟨"$\x7bz\x7d\n$\x7bu\x7d", ⟨2, 21⟩⟩,
          ⟨"$\x7bv\x7d", ⟨3, 10⟩⟩, ⟨"$\x7bw\x7d", ⟨3, 18⟩⟩] ∧
      ∃ source parts, Bytes.encode source = Bytes.encode placesSource ∧
        parts.flatMap Prod.snd = source ∧ Segmented .start parts ∧
        template.readings = (parts.map Prod.fst).flatMap Event.readings ∧
        ∀ before event slice after, parts = before ++ (event, slice) :: after →
          event.Placed (before.flatMap Prod.snd) slice := by
  obtain ⟨template, htemplate, hreadings⟩ :
      ∃ template, parse 16 (Bytes.encode placesSource) = .ok template ∧
        (template.readings ==
          [⟨"a $\x7bx\x7d\n", ⟨1, 1⟩⟩, ⟨" $\x7by\x7d ", ⟨2, 5⟩⟩,
            ⟨"$\x7bz\x7d\n$\x7bu\x7d", ⟨2, 21⟩⟩, ⟨"$\x7bv\x7d", ⟨3, 10⟩⟩,
            ⟨"$\x7bw\x7d", ⟨3, 18⟩⟩]) = true :=
    exists_of_any (by decide +kernel)
  exact ⟨template, htemplate, beq_iff_eq.1 hreadings, (exists_placed htemplate).1⟩

/-- With a blank on either side of the equals sign, a diagnostic points two columns before the
expression that it is made from. -/
theorem compile_misplaced :
    ∃ compiler compilation,
      Compiler.ofOptions { Options.default with strict := true } = .ok compiler ∧
      compiler.compile (Bytes.encode "<a title = \"$\x7bx\x7d\"></a>".toList) = .ok compilation ∧
      compilation.diagnostics = [⟨.warning, ⟨1, 11⟩, .unresolved "x"⟩] ∧
      "<a title = \"".toList ++ "$\x7bx\x7d".toList <+: "<a title = \"$\x7bx\x7d\"></a>".toList ∧
      Location.start.advance "<a title = \"".toList = ⟨1, 13⟩ := by
  obtain ⟨compiler, hcompiler, hcompile⟩ :
      ∃ compiler, Compiler.ofOptions { Options.default with strict := true } = .ok compiler ∧
        (compiler.compile (Bytes.encode "<a title = \"$\x7bx\x7d\"></a>".toList)).toOption.any
          (fun compilation => compilation.diagnostics = [⟨.warning, ⟨1, 11⟩, .unresolved "x"⟩]) =
          true :=
    exists_of_any (by decide +kernel)
  obtain ⟨compilation, hcompilation, hdiagnostics⟩ := exists_of_any hcompile
  exact ⟨compiler, compilation, hcompiler, hcompilation, of_decide_eq_true hdiagnostics,
    by decide, by decide⟩

end Stencil.Markup
