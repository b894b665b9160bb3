import Stencil.Markup.Scanner

/-!
# How events are written

Each event stands for a slice of the source. A text is its own slice. The others are what a
construct is written as: a comment between its marks, a tag with its name, its attributes and what
separates them. For a construct that has not ended, the scanner's mode says what there is of it.

## Main definitions

* `WrittenAttribute.Spelled`, `SpelledAttributes`: how attributes are written, and where
* `Event.Spelled`: the slice of an event
* `Segmented`: events with their slices, one after the other
* `Mode.Spelled`: what has been read of a construct

## Main results

* `Segmented.concat`: one more event, where the slices so far end
* `OpenTag.Spelled.gap`, `OpenTag.Spelled.add`: blanks and attributes in a start tag
-/

namespace Stencil.Markup

/-! ### How events are written -/

/-- An equals sign with blanks around it. -/
def IsAssignment (cs : List Char) : Prop :=
  ∃ before after, cs = before ++ '=' :: after ∧ ∀ c ∈ before ++ after, Text.isBlank c = true

/-- Blanks, and slashes that end no tag. -/
def IsGap (cs : List Char) : Prop :=
  ∀ c ∈ cs, Text.isBlank c = true ∨ c = '/'

/-- The source of an attribute: its name, and its value as it is behind an equals sign. -/
def WrittenAttribute.Spelled (attr : WrittenAttribute) (source : List Char) : Prop :=
  match attr.value, attr.quote with
  | none, _ => source = attr.name.toList
  | some value, none => ∃ sign, IsAssignment sign ∧
    source = attr.name.toList ++ (sign ++ value.toList)
  | some value, some quote => ∃ sign, IsAssignment sign ∧ quote ∉ value.toList ∧
    source = attr.name.toList ++ (sign ++ (quote :: (value.toList ++ [quote])))

/-- The source of attributes, which begins at `here`, with what separates them. -/
inductive SpelledAttributes (here : Location) : List Char → List WrittenAttribute → Prop where
  | nil : SpelledAttributes here [] []
  | gap {source blanks : List Char} {attributes : List WrittenAttribute}
      (h : SpelledAttributes here source attributes) (hblanks : IsGap blanks) :
      SpelledAttributes here (source ++ blanks) attributes
  | attribute {source spelled : List Char} {attributes : List WrittenAttribute}
      {attr : WrittenAttribute} (h : SpelledAttributes here source attributes)
      (hattr : attr.Spelled spelled) (hlocation : attr.location = here.advance source) :
      SpelledAttributes here (source ++ spelled) (attributes ++ [attr])

/-- Whether the event is text. -/
def Event.isText : Event → Bool
  | .text .. => true
  | _ => false

/-- The slice of an event that begins at `here`. -/
def Event.Spelled (here : Location) (slice : List Char) : Event → Prop
  | .text written location => location = here ∧ slice = written.toList ∧ slice ≠ []
  | .comment written location => location = here ∧
    slice = "<!--".toList ++ (written.toList ++ "-->".toList)
  | .startTag tag => tag.location = here ∧ ∃ body,
    SpelledAttributes (here.advance ('<' :: tag.name.toList)) body tag.attributes ∧
    slice = '<' :: (tag.name.toList ++ body) ++ if tag.selfClosing then ['/', '>'] else ['>']
  | .endTag name location => location = here ∧ ∃ gap, IsGap gap ∧
    slice = '<' :: '/' :: (name.toList ++ gap) ++ ['>']
  | .finish _ => False

/-- Events with their slices from `here` on. Text does not follow text. -/
def Segmented : Location → List (Event × List Char) → Prop
  | _, [] => True
  | here, (event, slice) :: rest =>
    event.Spelled here slice ∧
      (event.isText = true → ∀ next ∈ rest.head?, next.1.isText = false) ∧
      Segmented (here.advance slice) rest

/-- One more event, where the slices so far end. -/
theorem Segmented.concat {here : Location} {parts : List (Event × List Char)} {event : Event}
    {slice : List Char} (h : Segmented here parts)
    (hevent : event.Spelled (here.advance (parts.flatMap Prod.snd)) slice)
    (htext : event.isText = true → ∀ last ∈ parts.getLast?, last.1.isText = false) :
    Segmented here (parts ++ [(event, slice)]) := by
  induction parts generalizing here with
  | nil => exact ⟨hevent, nofun, trivial⟩
  | cons first rest ih =>
    obtain ⟨hfirst, hnext, hrest⟩ := h
    rw [List.flatMap_cons, Location.advance_append] at hevent
    cases rest with
    | nil =>
      refine ⟨hfirst, fun hfirstText next hsecond => ?_, ih hrest hevent nofun⟩
      obtain rfl := Option.some.inj hsecond
      refine Bool.eq_false_iff.2 fun hsecondText => ?_
      have hnot := htext hsecondText first rfl
      rw [hfirstText] at hnot
      cases hnot
    | cons second rest =>
      exact ⟨hfirst, hnext, ih hrest hevent fun hisText last hlast => htext hisText last hlast⟩

theorem Segmented.concat_event {here : Location} {parts : List (Event × List Char)} {event : Event}
    {slice : List Char} (h : Segmented here parts)
    (hevent : event.Spelled (here.advance (parts.flatMap Prod.snd)) slice)
    (htext : event.isText = false) :
    Segmented here (parts ++ [(event, slice)]) ∧
      ∀ last ∈ (parts ++ [(event, slice)]).getLast?, last.1.isText = false := by
  refine ⟨h.concat hevent fun hisText => ?_, fun last hlast => ?_⟩
  · rw [htext] at hisText
    cases hisText
  · rw [List.getLast?_concat] at hlast
    rw [← Option.some.inj hlast]
    exact htext

/-! ### What has been read of a construct -/

namespace OpenTag

variable {tag : OpenTag} {attr : OpenAttribute} {here : Location} {source more : List Char}

/-- The source of a start tag as far as it has been read. -/
def Spelled (here : Location) (source : List Char) (tag : OpenTag) : Prop :=
  ∃ body, source = '<' :: (tag.name.toList ++ body) ∧
    SpelledAttributes (here.advance ('<' :: tag.name.toList)) body tag.attributes.reverse

theorem Spelled.gap {blanks : List Char} (h : tag.Spelled here source) (hblanks : IsGap blanks) :
    tag.Spelled here (source ++ blanks) := by
  obtain ⟨body, rfl, hbody⟩ := h
  exact ⟨body ++ blanks, by simp, hbody.gap hblanks⟩

theorem Spelled.add {attr : WrittenAttribute} {spelled : List Char} (h : tag.Spelled here source)
    (hattr : attr.Spelled spelled) (hlocation : attr.location = here.advance source) :
    (tag.add attr).Spelled here (source ++ spelled) := by
  obtain ⟨body, rfl, hbody⟩ := h
  refine ⟨body ++ spelled, by simp [add], ?_⟩
  rw [add, List.reverse_cons]
  refine hbody.attribute hattr ?_
  rw [hlocation, ← Location.advance_append, List.cons_append]

/-- The source of a start tag up to an attribute, and `more` behind the name of the attribute. -/
def SpelledUpTo (here : Location) (source : List Char) (tag : OpenTag) (attr : OpenAttribute)
    (more : List Char) : Prop :=
  ∃ before, source = before ++ (attr.name.reverse ++ more) ∧ tag.Spelled here before ∧
    attr.location = here.advance before

theorem SpelledUpTo.concat (h : SpelledUpTo here source tag attr more) (c : Char) :
    SpelledUpTo here (source ++ [c]) tag attr (more ++ [c]) := by
  obtain ⟨before, rfl, hbefore, hlocation⟩ := h
  exact ⟨before, by simp, hbefore, hlocation⟩

theorem SpelledUpTo.close {value : Option (List Char)} {quote : Option Char}
    (h : SpelledUpTo here source tag attr more)
    (hattr : (attr.close value quote).Spelled (attr.name.reverse ++ more)) :
    (tag.add (attr.close value quote)).Spelled here source := by
  obtain ⟨before, rfl, hbefore, hlocation⟩ := h
  exact hbefore.add hattr hlocation

/-- Blanks behind a name are no part of the attribute. -/
theorem SpelledUpTo.close_none (h : SpelledUpTo here source tag attr more)
    (hmore : ∀ c ∈ more, Text.isBlank c = true) :
    (tag.add (attr.close none none)).Spelled here source := by
  obtain ⟨before, rfl, hbefore, hlocation⟩ := h
  rw [← List.append_assoc]
  refine Spelled.gap (hbefore.add ?_ hlocation) fun c hc => .inl (hmore c hc)
  simp [WrittenAttribute.Spelled, OpenAttribute.close]

end OpenTag

/-- The source of the construct that is being read, which begins at `here`. -/
def Mode.Spelled (here : Location) (source : List Char) : Mode → Prop
  | .text => True
  | .tagOpen => source = ['<']
  | .declarationOpen dash => source = '<' :: '!' :: if dash then ['-'] else []
  | .declaration => True
  | .comment body => source = "<!--".toList ++ body.reverse
  | .tagName name => source = '<' :: name.reverse
  | .beforeAttribute tag => tag.Spelled here source
  | .attributeName tag attr => tag.SpelledUpTo here source attr []
  | .afterAttributeName tag attr => ∃ blanks, (∀ c ∈ blanks, Text.isBlank c = true) ∧
    tag.SpelledUpTo here source attr blanks
  | .beforeValue tag attr => ∃ sign, IsAssignment sign ∧ tag.SpelledUpTo here source attr sign
  | .quotedValue tag attr quote value => ∃ sign, IsAssignment sign ∧ quote ∉ value ∧
    tag.SpelledUpTo here source attr (sign ++ quote :: value.reverse)
  | .bareValue tag attr value => ∃ sign, IsAssignment sign ∧
    tag.SpelledUpTo here source attr (sign ++ value.reverse)
  | .selfClosing tag => ∃ before, source = before ++ ['/'] ∧ tag.Spelled here before
  | .endTagOpen => source = ['<', '/']
  | .endTagName name => source = '<' :: '/' :: name.reverse
  | .afterEndTagName name => ∃ gap, IsGap gap ∧ source = '<' :: '/' :: (name.toList ++ gap)
  -- The column where the end tag begins is counted back from its end.
  | .rawText name => '\n' ∉ name.toList

end Stencil.Markup
