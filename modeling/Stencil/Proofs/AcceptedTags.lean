import Stencil.Proofs.Transitions

/-!
# Start tags that the scanner accepts

Whatever the text, the names in a start tag that is reported are names, and a value between quotes
does not hold its quote; a value without quotes can hold any. Inside a start tag attributes are only
ever added, so those that have been read come first in the tag that is reported.

## Main definitions

* `StartTag.Accepted`, `Mode.Accepted`: what is known about a start tag, and about one that goes on
* `Mode.Inside`: the modes inside a start tag, with the attributes read so far

## Main results

* `Scanner.accepted_of_feed`: all start tags that are reported are accepted
* `Scanner.attributes_of_feed`: the attributes read so far come first
-/

namespace Stencil.Markup

/-- A letter and characters that can continue the name of a tag. -/
structure IsTagName (name : List Char) : Prop where
  begins : name.head?.any Text.isAlphabetic = true
  continues : name.tail.all continuesTagName = true

/-- At least one character, all of which can stand in the name of an attribute. -/
structure IsAttributeName (name : List Char) : Prop where
  ne_nil : name ≠ []
  continues : ∀ c ∈ name, continuesAttributeName c = true

/-- An attribute with a name, whose value is not cut short by the quote around it. -/
structure WrittenAttribute.Accepted (attr : WrittenAttribute) : Prop where
  name : IsAttributeName attr.name.toList
  quote : ∀ quote, attr.quote = some quote →
    (quote = '"' ∨ quote = '\'') ∧ ∃ value, attr.value = some value ∧ quote ∉ value.toList

/-- A start tag with a name and accepted attributes. -/
structure StartTag.Accepted (tag : StartTag) : Prop where
  name : IsTagName tag.name.toList
  attributes : ∀ attr ∈ tag.attributes, attr.Accepted

/-- A start tag that goes on, with a name and accepted attributes. -/
structure OpenTag.Accepted (tag : OpenTag) : Prop where
  name : IsTagName tag.name.toList
  attributes : ∀ attr ∈ tag.attributes, attr.Accepted

/-- What the scanner is in the middle of can become an accepted start tag. -/
def Mode.Accepted : Mode → Prop
  | .tagName name => IsTagName name.reverse
  | .beforeAttribute tag => tag.Accepted
  | .selfClosing tag => tag.Accepted
  | .attributeName tag attr => tag.Accepted ∧ IsAttributeName attr.name.reverse
  | .afterAttributeName tag attr => tag.Accepted ∧ IsAttributeName attr.name.reverse
  | .beforeValue tag attr => tag.Accepted ∧ IsAttributeName attr.name.reverse
  | .bareValue tag attr _ => tag.Accepted ∧ IsAttributeName attr.name.reverse
  | .quotedValue tag attr quote value =>
    (tag.Accepted ∧ IsAttributeName attr.name.reverse) ∧ (quote = '"' ∨ quote = '\'') ∧
      quote ∉ value
  | _ => True

theorem IsTagName.push {name : List Char} {c : Char} (h : IsTagName name)
    (hc : continuesTagName c = true) : IsTagName (name ++ [c]) := by
  obtain ⟨hbegins, hcontinues⟩ := h
  cases name with
  | nil => cases hbegins
  | cons first rest =>
    refine ⟨hbegins, ?_⟩
    simpa [hc] using hcontinues

theorem IsAttributeName.single {c : Char} (hc : continuesAttributeName c = true) :
    IsAttributeName [c] :=
  ⟨List.cons_ne_nil _ _, List.forall_mem_singleton.2 hc⟩

theorem IsAttributeName.push {name : List Char} {c : Char} (h : IsAttributeName name)
    (hc : continuesAttributeName c = true) : IsAttributeName (name ++ [c]) := by
  refine ⟨List.append_ne_nil_of_left_ne_nil h.ne_nil _, ?_⟩
  exact List.forall_mem_append.2 ⟨h.continues, List.forall_mem_singleton.2 hc⟩

namespace OpenTag.Accepted

variable {tag : OpenTag} {attr : OpenAttribute}

theorem add (h : tag.Accepted) {attr : WrittenAttribute} (hattr : attr.Accepted) :
    (tag.add attr).Accepted :=
  ⟨h.name, List.forall_mem_cons.2 ⟨hattr, h.attributes⟩⟩

/-- An attribute without quotes around its value can hold anything. -/
theorem addBare (h : tag.Accepted ∧ IsAttributeName attr.name.reverse)
    (value : Option (List Char)) : (tag.add (attr.close value none)).Accepted := by
  refine h.1.add ⟨?_, nofun⟩
  rw [OpenAttribute.close, String.toList_ofList]
  exact h.2

theorem addQuoted (h : tag.Accepted ∧ IsAttributeName attr.name.reverse) {quote : Char}
    {value : List Char} (hquote : quote = '"' ∨ quote = '\'') (hvalue : quote ∉ value) :
    (tag.add (attr.close (some value) (some quote))).Accepted := by
  refine h.1.add ⟨?_, ?_⟩
  · rw [OpenAttribute.close, String.toList_ofList]
    exact h.2
  · rintro _ ⟨⟩
    refine ⟨hquote, _, rfl, ?_⟩
    rwa [String.toList_ofList, List.mem_reverse]

end OpenTag.Accepted

namespace Mode

variable {mode mode' : Mode} {tag : OpenTag} {attr : OpenAttribute} {c : Char} {here : Location}

theorem Completes.accepted (h : mode.Completes tag) (hmode : mode.Accepted) : tag.Accepted := by
  cases h with
  | tagName name => exact ⟨by rwa [String.toList_ofList], List.forall_mem_nil _⟩
  | beforeAttribute | selfClosing => exact hmode
  | attributeName | afterAttributeName | beforeValue | bareValue => exact .addBare hmode _

theorem Names.accepted (h : mode.Names tag attr) (hmode : mode.Accepted) :
    tag.Accepted ∧ IsAttributeName attr.name.reverse := by
  cases h <;> exact hmode

/-- What goes on can still become an accepted start tag. -/
theorem Continues.accepted (h : mode.Continues c here mode') (hmode : mode.Accepted) :
    mode'.Accepted := by
  cases h with
  | tagOpen hc => exact ⟨hc, rfl⟩
  | @tagName name hc =>
    have hname : IsTagName name.reverse := hmode
    simpa [Mode.Accepted] using hname.push hc
  | blank htag | slash htag => exact htag.accepted hmode
  | begins htag hc => exact ⟨htag.accepted hmode, .single hc⟩
  | attributeName hc => exact ⟨hmode.1, by simpa using hmode.2.push hc⟩
  | afterAttributeName hname | equals hname => exact hname.accepted hmode
  | beforeValue | bare | bareValue => exact hmode
  | quote hc => exact ⟨hmode, hc, List.not_mem_nil⟩
  | quotedValue hc =>
    obtain ⟨hattr, hquote, hvalue⟩ := hmode
    exact ⟨hattr, hquote, List.not_mem_cons_of_ne_of_not_mem hc.symm hvalue⟩
  | unquote =>
    obtain ⟨hattr, hquote, hvalue⟩ := hmode
    exact OpenTag.Accepted.addQuoted hattr hquote hvalue
  | _ => trivial

end Mode

namespace Scanner

variable {s : Scanner} {c : Char}

/-! ### One character -/

/-- The step leads to an accepted mode and reports accepted start tags, if it does not fail. -/
def StepAccepted (result : Step) : Prop :=
  ∀ next events, result = .ok (next, events) →
    next.mode.Accepted ∧ ∀ tag, .startTag tag ∈ events → tag.Accepted

theorem stepAccepted_error (e : MarkupError) : StepAccepted (.error e) := nofun

theorem startTag_notMem_textEvents (tag : StartTag) : Event.startTag tag ∉ s.textEvents := by
  unfold textEvents
  split <;> simp

theorem stepAccepted_ok {next : Scanner} (h : next.mode.Accepted) {events : List Event}
    (hevents : ∀ tag, .startTag tag ∉ events) : StepAccepted (.ok (next, events)) := by
  rintro _ _ ⟨⟩
  exact ⟨h, fun tag htag => absurd htag (hevents tag)⟩

theorem stepAccepted_into {mode : Mode} (h : mode.Accepted) : StepAccepted (s.into mode) :=
  stepAccepted_ok h fun _ => List.not_mem_nil

theorem stepAccepted_reportStartTag {tag : OpenTag} (h : tag.Accepted) (selfClosing : Bool) :
    StepAccepted (s.reportStartTag tag selfClosing) := by
  rintro _ _ ⟨⟩
  constructor
  · dsimp only
    split <;> trivial
  · intro reported hreported
    rcases List.mem_append.1 hreported with htext | hlast
    · exact absurd htext (startTag_notMem_textEvents reported)
    · obtain rfl := Event.startTag.inj (List.mem_singleton.1 hlast)
      exact ⟨h.name, fun attr hattr => h.attributes attr (List.mem_reverse.1 hattr)⟩

theorem stepAccepted_reportEndTag (name : String) : StepAccepted (s.reportEndTag name) := by
  refine stepAccepted_ok (by trivial) fun tag htag => ?_
  rcases List.mem_append.1 htag with htext | hlast
  · exact startTag_notMem_textEvents tag htext
  · cases List.mem_singleton.1 hlast

theorem stepAccepted_text : StepAccepted (s.stepText c) := by
  unfold stepText
  split
  · exact stepAccepted_ok (by trivial) fun _ => List.not_mem_nil
  · exact stepAccepted_ok (by trivial) fun _ => List.not_mem_nil

theorem stepAccepted_stepInMode (h : s.mode.Accepted) (c : Char) :
    StepAccepted (s.stepInMode c) := by
  have hreacts := reacts_stepInMode s c
  generalize s.stepInMode c = result at hreacts ⊢
  cases hreacts with
  | text | bracket => exact stepAccepted_text
  | goesOn hmode => exact stepAccepted_into (hmode.accepted h)
  | fault => exact stepAccepted_error _
  | startTag hmode => exact stepAccepted_reportStartTag (hmode.accepted h) false
  | emptyTag hmode =>
    rw [hmode] at h
    exact stepAccepted_reportStartTag h true
  | endTag | rawEnd => exact stepAccepted_reportEndTag _
  | declaration => exact stepAccepted_ok (by trivial) fun _ => List.not_mem_nil
  | commentOpen => exact stepAccepted_ok (by trivial) startTag_notMem_textEvents
  | comment | rawGap => exact stepAccepted_into trivial
  | commentEnd => exact stepAccepted_ok (by trivial) (by simp)
  | rawText hmode =>
    refine stepAccepted_ok ?_ fun _ => List.not_mem_nil
    rw [pushText, hmode]
    trivial

/-! ### All characters -/

/-- The end of a text reports no start tag. -/
theorem startTag_notMem_of_finish {last : List Event} {tag : StartTag}
    (h : s.finish = .ok last) : .startTag tag ∉ last := by
  have hends (t : Scanner) (here : Location) : .startTag tag ∉ t.textEvents ++ [.finish here] := by
    simp [startTag_notMem_textEvents]
  cases hmode : s.mode <;> simp only [finish, hmode] at h
  case text | rawText | tagOpen =>
    rw [← Except.ok.inj h]
    exact hends _ _
  all_goals cases h

/-- All start tags that a text gives are accepted. -/
theorem accepted_of_feed (h : s.mode.Accepted) {cs : List Char} {tag : StartTag}
    (htag : .startTag tag ∈ (s.feed cs).1) : tag.Accepted := by
  induction cs generalizing s with
  | nil => cases htag
  | cons c rest ih =>
    rw [feed] at htag
    cases hstep : s.step c with
    | error e =>
      rw [hstep] at htag
      cases htag
    | ok taken =>
      obtain ⟨next, events⟩ := taken
      rw [hstep] at htag
      obtain ⟨inMode, hinMode, hmode⟩ := exists_of_step hstep
      obtain ⟨hnext, hevents⟩ := stepAccepted_stepInMode h c _ _ hinMode
      rcases List.mem_append.1 htag with hnow | hlater
      · exact hevents tag hnow
      · exact ih (hmode ▸ hnext) hlater

end Scanner

/-! ### Inside a start tag -/

/-- The scanner is inside a start tag, and has read at least these attributes, the last one
nearest. -/
inductive Mode.Inside (found : List WrittenAttribute) : Mode → Prop
  | beforeAttribute {tag : OpenTag} (h : found <:+ tag.attributes) :
    Inside found (.beforeAttribute tag)
  | attributeName {tag : OpenTag} (attr : OpenAttribute) (h : found <:+ tag.attributes) :
    Inside found (.attributeName tag attr)
  | afterAttributeName {tag : OpenTag} (attr : OpenAttribute) (h : found <:+ tag.attributes) :
    Inside found (.afterAttributeName tag attr)
  | beforeValue {tag : OpenTag} (attr : OpenAttribute) (h : found <:+ tag.attributes) :
    Inside found (.beforeValue tag attr)
  | quotedValue {tag : OpenTag} (attr : OpenAttribute) (quote : Char) (value : List Char)
    (h : found <:+ tag.attributes) : Inside found (.quotedValue tag attr quote value)
  | bareValue {tag : OpenTag} (attr : OpenAttribute) (value : List Char)
    (h : found <:+ tag.attributes) : Inside found (.bareValue tag attr value)
  | selfClosing {tag : OpenTag} (h : found <:+ tag.attributes) : Inside found (.selfClosing tag)

namespace Mode

variable {mode mode' : Mode} {found : List WrittenAttribute} {tag : OpenTag} {c : Char}
  {here : Location}

theorem suffix_add (h : found <:+ tag.attributes) (attr : WrittenAttribute) :
    found <:+ (tag.add attr).attributes :=
  h.trans (List.suffix_cons attr tag.attributes)

theorem Inside.suffix_of_completes (h : mode.Inside found) (htag : mode.Completes tag) :
    found <:+ tag.attributes := by
  cases htag with
  | tagName => cases h
  | beforeAttribute | selfClosing =>
    cases h
    assumption
  | attributeName | afterAttributeName | beforeValue | bareValue =>
    cases h
    exact suffix_add (by assumption) _

theorem Inside.suffix_of_names {attr : OpenAttribute} (h : mode.Inside found)
    (hname : mode.Names tag attr) : found <:+ tag.attributes := by
  cases hname <;> cases h <;> assumption

/-- Inside a start tag attributes are only added. -/
theorem Inside.continues (h : mode.Inside found) (hmode : mode.Continues c here mode') :
    mode'.Inside found := by
  cases hmode with
  | blank htag => exact .beforeAttribute (h.suffix_of_completes htag)
  | slash htag => exact .selfClosing (h.suffix_of_completes htag)
  | begins htag => exact .attributeName _ (h.suffix_of_completes htag)
  | afterAttributeName hname => exact .afterAttributeName _ (h.suffix_of_names hname)
  | equals hname => exact .beforeValue _ (h.suffix_of_names hname)
  | attributeName | beforeValue | quote | quotedValue | bare | bareValue =>
    cases h
    constructor
    assumption
  | unquote =>
    cases h
    exact .beforeAttribute (suffix_add (by assumption) _)
  | afterEndTagName hname => cases hname <;> cases h
  | _ => cases h

end Mode

namespace Scanner

variable {s : Scanner} {c : Char} {found : List WrittenAttribute} {tag : OpenTag}

/-- The step stays inside the start tag, or reports it with the attributes found first. -/
def StepInside (found : List WrittenAttribute) (result : Step) : Prop :=
  ∀ next events, result = .ok (next, events) →
    (events = [] ∧ next.mode.Inside found) ∨
      ∃ before tag, events = before ++ [.startTag tag] ∧ found.reverse <+: tag.attributes ∧
        ∀ event ∈ before, ∃ text here, event = .text text here

theorem stepInside_error (e : MarkupError) : StepInside found (.error e) := nofun

theorem stepInside_into {mode : Mode} (h : mode.Inside found) : StepInside found (s.into mode) := by
  rintro _ _ ⟨⟩
  exact .inl ⟨rfl, h⟩

theorem stepInside_reportStartTag (h : found <:+ tag.attributes) (selfClosing : Bool) :
    StepInside found (s.reportStartTag tag selfClosing) := by
  rintro _ _ ⟨⟩
  refine .inr ⟨s.textEvents, _, rfl, List.reverse_prefix.2 h, ?_⟩
  unfold textEvents
  split
  · exact List.forall_mem_nil _
  · exact List.forall_mem_singleton.2 ⟨_, _, rfl⟩

theorem stepInside_stepInMode (h : s.mode.Inside found) (c : Char) :
    StepInside found (s.stepInMode c) := by
  have hreacts := reacts_stepInMode s c
  generalize s.stepInMode c = result at hreacts ⊢
  cases hreacts with
  | goesOn hmode => exact stepInside_into (h.continues hmode)
  | fault => exact stepInside_error _
  | startTag hmode => exact stepInside_reportStartTag (h.suffix_of_completes hmode) false
  | emptyTag hmode =>
    rw [hmode] at h
    exact stepInside_reportStartTag (h.suffix_of_completes (.selfClosing _)) true
  -- What goes on inside a start tag is no declaration, and the tag is no end tag.
  | declaration hmode => cases h.continues hmode
  | endTag hmode =>
    generalize s.mode = mode at h hmode
    cases hmode <;> cases h
  | text hmode | bracket hmode | commentOpen hmode | comment hmode | commentEnd hmode
  | rawText hmode | rawEnd hmode | rawGap hmode =>
    rw [hmode] at h
    cases h

/-- What is reported first from inside a start tag, after the text before it, is the tag, and the
attributes read so far come first in it. -/
theorem attributes_of_feed (h : s.mode.Inside found) {cs : List Char} {tag : StartTag}
    {events : List Event} (htag : (s.feed cs).1 = .startTag tag :: events) :
    found.reverse <+: tag.attributes := by
  induction cs generalizing s with
  | nil => cases htag
  | cons c rest ih =>
    rw [feed] at htag
    cases hstep : s.step c with
    | error e =>
      rw [hstep] at htag
      cases htag
    | ok taken =>
      obtain ⟨next, reported⟩ := taken
      rw [hstep] at htag
      obtain ⟨inMode, hinMode, hmode⟩ := exists_of_step hstep
      rcases stepInside_stepInMode h c _ _ hinMode with
        ⟨rfl, hinside⟩ | ⟨before, first, rfl, hfirst, hbefore⟩
      · exact ih (hmode ▸ hinside) htag
      · -- The text before the tag would be reported first, so there is none.
        cases before with
        | nil =>
          obtain rfl := Event.startTag.inj (List.cons.inj htag).1
          exact hfirst
        | cons event before =>
          obtain ⟨text, here, rfl⟩ := hbefore event List.mem_cons_self
          cases htag

end Scanner

end Stencil.Markup
