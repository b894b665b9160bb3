import Stencil.Proofs.ScannedMarkup

/-!
# What a character does

All that a scanner can do with a character is said here once, for all modes. In the middle of a
construct the character leads to another mode, completes the construct, or is at fault; half of a
construct can still turn out to be text. What holds of every step is then shown for each of these
reactions, and not for each mode and each kind of character.

## Main definitions

* `Phase`: what the characters in a mode can become
* `Mode.Completes`: the start tag that has been read in a mode
* `Mode.Continues`: the modes to which a character of a construct can lead
* `Scanner.Reacts`: what a scanner can do with a character

## Main results

* `Scanner.reacts_stepInMode`: every step is one of these reactions
-/

namespace Stencil.Markup

variable {c : Char} {here : Location}

/-! ### Modes -/

/-- What the characters in a mode can become. -/
inductive Phase where
  /-- Text, one after the other. -/
  | between
  /-- A comment, in front of which all text has been reported. -/
  | comment
  /-- A tag, a comment, or text if nothing else. -/
  | markup
  deriving DecidableEq

namespace Mode

variable {mode mode' : Mode} {tag : OpenTag} {attr : OpenAttribute}

/-- The phase of a mode. -/
def phase : Mode → Phase
  | .text => .between
  | .rawText _ => .between
  | .comment _ => .comment
  | _ => .markup

theorem phase_ne_between (h : mode.phase = .markup) : mode.phase ≠ .between := by
  rw [h]
  exact nofun

theorem phase_ne_comment (h : mode.phase = .markup) : mode.phase ≠ .comment := by
  rw [h]
  exact nofun

theorem phase_ne_comment_of_between (h : mode.phase = .between) : mode.phase ≠ .comment := by
  rw [h]
  exact nofun

/-- The start tag that has been read, if what is being read of it ends here. -/
inductive Completes : Mode → OpenTag → Prop
  | tagName (name : List Char) : Completes (.tagName name) ⟨String.ofList name.reverse, []⟩
  | beforeAttribute (tag : OpenTag) : Completes (.beforeAttribute tag) tag
  | attributeName (tag : OpenTag) (attr : OpenAttribute) :
    Completes (.attributeName tag attr) (tag.add (attr.close none none))
  | afterAttributeName (tag : OpenTag) (attr : OpenAttribute) :
    Completes (.afterAttributeName tag attr) (tag.add (attr.close none none))
  | beforeValue (tag : OpenTag) (attr : OpenAttribute) :
    Completes (.beforeValue tag attr) (tag.add (attr.close (some []) none))
  | bareValue (tag : OpenTag) (attr : OpenAttribute) (value : List Char) :
    Completes (.bareValue tag attr value) (tag.add (attr.close (some value) none))
  /-- A slash that closes nothing separates attributes like a blank. -/
  | selfClosing (tag : OpenTag) : Completes (.selfClosing tag) tag

/-- The name of an attribute has been read, or goes on. -/
inductive Names (tag : OpenTag) (attr : OpenAttribute) : Mode → Prop
  | attributeName : Names tag attr (.attributeName tag attr)
  | afterAttributeName : Names tag attr (.afterAttributeName tag attr)

/-- The name of the end tag that has been read. -/
inductive Closes : Mode → String → Prop
  | endTagName (name : List Char) : Closes (.endTagName name) (String.ofList name.reverse)
  | afterEndTagName (name : String) : Closes (.afterEndTagName name) name

/-- The modes to which the character `c` at `here` can lead in the middle of a tag or of a
declaration. -/
inductive Continues (c : Char) (here : Location) : Mode → Mode → Prop
  | mark (hc : c = '!') : Continues c here .tagOpen (.declarationOpen false)
  | dash (hc : c = '-') : Continues c here (.declarationOpen false) (.declarationOpen true)
  | instruction : Continues c here .tagOpen .declaration
  | declarationOpen (dash : Bool) : Continues c here (.declarationOpen dash) .declaration
  | declaration : Continues c here .declaration .declaration
  | tagOpen (hc : Text.isAlphabetic c = true) : Continues c here .tagOpen (.tagName [c])
  | tagName {name : List Char} (hc : continuesTagName c = true) :
    Continues c here (.tagName name) (.tagName (c :: name))
  | blank {mode : Mode} {tag : OpenTag} (hmode : mode.Completes tag)
    (hc : Text.isBlank c = true) : Continues c here mode (.beforeAttribute tag)
  | slash {mode : Mode} {tag : OpenTag} (hmode : mode.Completes tag) (hc : c = '/') :
    Continues c here mode (.selfClosing tag)
  | begins {mode : Mode} {tag : OpenTag} (hmode : mode.Completes tag)
    (hc : continuesAttributeName c = true) :
    Continues c here mode (.attributeName tag ⟨[c], here⟩)
  | attributeName {tag : OpenTag} {attr : OpenAttribute} (hc : continuesAttributeName c = true) :
    Continues c here (.attributeName tag attr)
      (.attributeName tag { attr with name := c :: attr.name })
  | afterAttributeName {mode : Mode} {tag : OpenTag} {attr : OpenAttribute}
    (hmode : mode.Names tag attr) (hc : Text.isBlank c = true) :
    Continues c here mode (.afterAttributeName tag attr)
  | equals {mode : Mode} {tag : OpenTag} {attr : OpenAttribute} (hmode : mode.Names tag attr)
    (hc : c = '=') : Continues c here mode (.beforeValue tag attr)
  | beforeValue {tag : OpenTag} {attr : OpenAttribute} (hc : Text.isBlank c = true) :
    Continues c here (.beforeValue tag attr) (.beforeValue tag attr)
  | quote {tag : OpenTag} {attr : OpenAttribute} (hc : c = '"' ∨ c = '\'') :
    Continues c here (.beforeValue tag attr) (.quotedValue tag attr c [])
  | quotedValue {tag : OpenTag} {attr : OpenAttribute} {quote : Char} {value : List Char}
    (hc : c ≠ quote) : Continues c here (.quotedValue tag attr quote value)
      (.quotedValue tag attr quote (c :: value))
  | unquote {tag : OpenTag} {attr : OpenAttribute} {value : List Char} :
    Continues c here (.quotedValue tag attr c value)
      (.beforeAttribute (tag.add (attr.close (some value) (some c))))
  | bare {tag : OpenTag} {attr : OpenAttribute} :
    Continues c here (.beforeValue tag attr) (.bareValue tag attr [c])
  | bareValue {tag : OpenTag} {attr : OpenAttribute} {value : List Char} :
    Continues c here (.bareValue tag attr value) (.bareValue tag attr (c :: value))
  | close (hc : c = '/') : Continues c here .tagOpen .endTagOpen
  | endTagOpen : Continues c here .endTagOpen (.endTagName [c])
  | endTagName {name : List Char} : Continues c here (.endTagName name) (.endTagName (c :: name))
  | afterEndTagName {mode : Mode} {name : String} (hmode : mode.Closes name)
    (hc : Text.isBlank c = true) : Continues c here mode (.afterEndTagName name)

theorem Completes.phase_eq (h : mode.Completes tag) : mode.phase = .markup := by
  cases h <;> rfl

theorem Names.phase_eq (h : mode.Names tag attr) : mode.phase = .markup := by
  cases h <;> rfl

theorem Closes.phase_eq {name : String} (h : mode.Closes name) : mode.phase = .markup := by
  cases h <;> rfl

theorem Names.completes (h : mode.Names tag attr) :
    mode.Completes (tag.add (attr.close none none)) := by
  cases h with
  | attributeName => exact .attributeName tag attr
  | afterAttributeName => exact .afterAttributeName tag attr

theorem Continues.phase_eq (h : mode.Continues c here mode') : mode.phase = .markup := by
  cases h with
  | blank hmode _ | slash hmode _ | begins hmode _ => exact hmode.phase_eq
  | afterAttributeName hmode _ | equals hmode _ => exact hmode.phase_eq
  | afterEndTagName hmode _ => exact hmode.phase_eq
  | _ => rfl

theorem Continues.phase_eq' (h : mode.Continues c here mode') : mode'.phase = .markup := by
  cases h <;> rfl

end Mode

namespace Scanner

/-! ### Reactions -/

/-- What a scanner can do with a character. -/
inductive Reacts (s : Scanner) (c : Char) : Step → Prop
  | text (hmode : s.mode = .text) : Reacts s c (s.stepText c)
  /-- The bracket before the character begins nothing. -/
  | bracket (hmode : s.mode = .tagOpen) : Reacts s c (s.markupToText.stepText c)
  | goesOn {mode : Mode} (hmode : s.mode.Continues c s.location mode) :
    Reacts s c ((s.pushMarkup c).into mode)
  | fault (hphase : s.mode.phase = .markup) (fault : MarkupFault) :
    Reacts s c (.error ((s.pushMarkup c).fail fault))
  | startTag {tag : OpenTag} (hmode : s.mode.Completes tag) (hc : c = '>') :
    Reacts s c ((s.pushMarkup c).reportStartTag tag false)
  | emptyTag {tag : OpenTag} (hmode : s.mode = .selfClosing tag) (hc : c = '>') :
    Reacts s c ((s.pushMarkup c).reportStartTag tag true)
  | endTag {name : String} (hmode : s.mode.Closes name) (hc : c = '>') :
    Reacts s c ((s.pushMarkup c).reportEndTag name)
  /-- A declaration ends, and is text. -/
  | declaration (hmode : s.mode.Continues c s.location .declaration) :
    Reacts s c (.ok ((s.pushMarkup c).markupToText, []))
  /-- A comment begins, and the text in front of it is reported. -/
  | commentOpen (hmode : s.mode = .declarationOpen true) (hc : c = '-') :
    Reacts s c (.ok ({ s.pushMarkup c with mode := .comment [], text := [] },
      (s.pushMarkup c).textEvents))
  | comment {body : List Char} (hmode : s.mode = .comment body) :
    Reacts s c ((s.pushMarkup c).into (.comment (c :: body)))
  | commentEnd {text : List Char} (hmode : s.mode = .comment ('-' :: '-' :: text)) (hc : c = '>') :
    Reacts s c (.ok ({ s.pushMarkup c with mode := .text },
      [.comment (String.ofList text.reverse) s.markupStart]))
  | rawText {name : String} (hmode : s.mode = .rawText name) : Reacts s c (.ok (s.pushText c, []))
  /-- The end tag of a raw text element is cut off the text, and ends. -/
  | rawEnd {name : String} (hmode : s.mode = .rawText name)
    (hends : endsInEndTag name (s.text.take (name.length + 2)) = true) (hc : c = '>') :
    Reacts s c (((s.endTagCut name.length).pushMarkup c).reportEndTag
      (String.ofList (s.text.take name.length).reverse))
  /-- The end tag of a raw text element is cut off the text, and goes on. -/
  | rawGap {name : String} (hmode : s.mode = .rawText name)
    (hends : endsInEndTag name (s.text.take (name.length + 2)) = true)
    (hc : Text.isBlank c = true ∨ c = '/') :
    Reacts s c (((s.endTagCut name.length).pushMarkup c).into
      (.afterEndTagName (String.ofList (s.text.take name.length).reverse)))

variable {s : Scanner} {tag : OpenTag} {attr : OpenAttribute}

theorem reacts_ite {p : Prop} [Decidable p] {first second : Step}
    (hfirst : p → s.Reacts c first) (hsecond : ¬ p → s.Reacts c second) :
    s.Reacts c (if p then first else second) := by
  split
  · next h => exact hfirst h
  · next h => exact hsecond h

theorem reacts_into {mode mode' : Mode} (hmode : s.mode = mode)
    (h : mode.Continues c s.location mode') : s.Reacts c ((s.pushMarkup c).into mode') :=
  .goesOn (hmode ▸ h)

theorem reacts_stepTagOpen (hmode : s.mode = .tagOpen) (c : Char) :
    s.Reacts c (s.stepTagOpen c) := by
  refine reacts_ite (fun hc => reacts_into hmode (.mark hc)) fun _ => ?_
  refine reacts_ite (fun hc => reacts_into hmode (.close hc)) fun _ => ?_
  refine reacts_ite (fun _ => reacts_into hmode .instruction) fun _ => ?_
  exact reacts_ite (fun hc => reacts_into hmode (.tagOpen hc)) fun _ => .bracket hmode

theorem reacts_stepDeclarationOpen {dash : Bool} (hmode : s.mode = .declarationOpen dash)
    (c : Char) : s.Reacts c (s.stepDeclarationOpen dash c) := by
  refine reacts_ite (fun hc => ?_) fun _ => ?_
  · cases dash with
    | false => exact reacts_into hmode (.dash hc)
    | true => exact .commentOpen hmode hc
  · exact reacts_ite (fun _ => .declaration (hmode ▸ .declarationOpen dash))
      fun _ => reacts_into hmode (.declarationOpen dash)

theorem reacts_stepDeclaration (hmode : s.mode = .declaration) (c : Char) :
    s.Reacts c (s.stepDeclaration c) := by
  have hnext : s.mode.Continues c s.location .declaration := by
    rw [hmode]
    exact .declaration
  exact reacts_ite (fun _ => .declaration hnext) fun _ => .goesOn hnext

theorem reacts_stepComment {body : List Char} (hmode : s.mode = .comment body) (c : Char) :
    s.Reacts c (s.stepComment body c) := by
  unfold stepComment
  split
  · exact .commentEnd hmode rfl
  · exact .comment hmode

theorem reacts_stepTagName {name : List Char} (hmode : s.mode = .tagName name) (c : Char) :
    s.Reacts c (s.stepTagName name c) := by
  have htag : s.mode.Completes ⟨String.ofList name.reverse, []⟩ := hmode ▸ .tagName name
  refine reacts_ite (fun hc => reacts_into hmode (.tagName hc)) fun _ => ?_
  refine reacts_ite (fun hc => .goesOn (.blank htag hc)) fun _ => ?_
  refine reacts_ite (fun hc => .goesOn (.slash htag hc)) fun _ => ?_
  exact reacts_ite (fun hc => .startTag htag hc) fun _ => .fault htag.phase_eq _

theorem reacts_stepBeforeAttribute (hmode : s.mode.Completes tag) (c : Char) :
    s.Reacts c (s.stepBeforeAttribute tag c) := by
  refine reacts_ite (fun hc => .goesOn (.blank hmode hc)) fun hblank => ?_
  refine reacts_ite (fun hc => .startTag hmode hc) fun hgreater => ?_
  refine reacts_ite (fun hc => .goesOn (.slash hmode hc)) fun hslash => ?_
  refine reacts_ite (fun _ => .fault hmode.phase_eq _) fun hstray => ?_
  refine .goesOn (.begins hmode ?_)
  simp only [Bool.or_eq_true, decide_eq_true_eq, not_or] at hstray
  simp [continuesAttributeName, hblank, hgreater, hslash, hstray]

/-- Behind the name of an attribute, where `other` is what more of a name leads to. -/
theorem reacts_named (hmode : s.mode.Names tag attr) {fault : MarkupFault} {other : Step}
    (hother : continuesAttributeName c = true → s.Reacts c other) :
    s.Reacts c
      (if Text.isBlank c then (s.pushMarkup c).into (.afterAttributeName tag attr)
      else if c = '=' then (s.pushMarkup c).into (.beforeValue tag attr)
      else if c = '>' then
        (s.pushMarkup c).reportStartTag (tag.add (attr.close none none)) false
      else if c = '/' then (s.pushMarkup c).into (.selfClosing (tag.add (attr.close none none)))
      else if c = '"' || c = '\'' || c = '<' then .error ((s.pushMarkup c).fail fault)
      else other) := by
  refine reacts_ite (fun hc => .goesOn (.afterAttributeName hmode hc)) fun hblank => ?_
  refine reacts_ite (fun hc => .goesOn (.equals hmode hc)) fun hequals => ?_
  refine reacts_ite (fun hc => .startTag hmode.completes hc) fun hgreater => ?_
  refine reacts_ite (fun hc => .goesOn (.slash hmode.completes hc)) fun hslash => ?_
  refine reacts_ite (fun _ => .fault hmode.phase_eq _) fun hstray => hother ?_
  simp only [Bool.or_eq_true, decide_eq_true_eq, not_or] at hstray
  simp [continuesAttributeName, hblank, hequals, hgreater, hslash, hstray]

theorem reacts_stepAttributeName (hmode : s.mode = .attributeName tag attr) (c : Char) :
    s.Reacts c (s.stepAttributeName tag attr c) :=
  reacts_named (hmode ▸ .attributeName) fun hc => reacts_into hmode (.attributeName hc)

theorem reacts_stepAfterAttributeName (hmode : s.mode = .afterAttributeName tag attr) (c : Char) :
    s.Reacts c (s.stepAfterAttributeName tag attr c) :=
  reacts_named (hmode ▸ .afterAttributeName)
    fun hc => reacts_into hmode (.begins (.afterAttributeName tag attr) hc)

theorem reacts_stepBeforeValue (hmode : s.mode = .beforeValue tag attr) (c : Char) :
    s.Reacts c (s.stepBeforeValue tag attr c) := by
  refine reacts_ite (fun hc => reacts_into hmode (.beforeValue hc)) fun _ => ?_
  refine reacts_ite (fun hc => reacts_into hmode (.quote (by simpa using hc))) fun _ => ?_
  exact reacts_ite (fun hc => .startTag (hmode ▸ .beforeValue tag attr) hc)
    fun _ => reacts_into hmode .bare

theorem reacts_stepQuotedValue {quote : Char} {value : List Char}
    (hmode : s.mode = .quotedValue tag attr quote value) (c : Char) :
    s.Reacts c (s.stepQuotedValue tag attr quote value c) := by
  refine reacts_ite (fun hc => ?_) fun hc => reacts_into hmode (.quotedValue hc)
  subst hc
  exact reacts_into hmode .unquote

theorem reacts_stepBareValue {value : List Char} (hmode : s.mode = .bareValue tag attr value)
    (c : Char) : s.Reacts c (s.stepBareValue tag attr value c) := by
  have htag : s.mode.Completes (tag.add (attr.close (some value) none)) :=
    hmode ▸ .bareValue tag attr value
  refine reacts_ite (fun hc => .goesOn (.blank htag hc)) fun _ => ?_
  exact reacts_ite (fun hc => .startTag htag hc) fun _ => reacts_into hmode .bareValue

theorem reacts_stepSelfClosing (hmode : s.mode = .selfClosing tag) (c : Char) :
    s.Reacts c (s.stepSelfClosing tag c) :=
  reacts_ite (fun hc => .emptyTag hmode hc)
    fun _ => reacts_stepBeforeAttribute (hmode ▸ .selfClosing tag) c

theorem reacts_stepEndTagOpen (hmode : s.mode = .endTagOpen) (c : Char) :
    s.Reacts c (s.stepEndTagOpen c) :=
  reacts_ite (fun _ => reacts_into hmode .endTagOpen) fun _ => .fault (hmode ▸ rfl) _

theorem reacts_stepAfterEndTagName {name : String} (hmode : s.mode.Closes name)
    (fault : MarkupFault) (c : Char) :
    s.Reacts c
      (if Text.isBlank c then (s.pushMarkup c).into (.afterEndTagName name)
      else if c = '>' then (s.pushMarkup c).reportEndTag name
      else .error ((s.pushMarkup c).fail fault)) := by
  refine reacts_ite (fun hc => .goesOn (.afterEndTagName hmode hc)) fun _ => ?_
  exact reacts_ite (fun hc => .endTag hmode hc) fun _ => .fault hmode.phase_eq _

theorem reacts_stepRawText {name : String} (hmode : s.mode = .rawText name) (c : Char) :
    s.Reacts c (s.stepRawText name c) := by
  refine reacts_ite (fun hends => ?_) fun _ => .rawText hmode
  rw [Bool.and_eq_true] at hends
  refine reacts_ite (fun hc => .rawEnd hmode hends.2 hc) fun hc => .rawGap hmode hends.2 ?_
  simpa [hc, or_comm] using hends.1

/-- A character in any mode. -/
theorem reacts_stepInMode (s : Scanner) (c : Char) : s.Reacts c (s.stepInMode c) := by
  cases hmode : s.mode <;> simp only [stepInMode, hmode]
  case text => exact .text hmode
  case tagOpen => exact reacts_stepTagOpen hmode c
  case declarationOpen => exact reacts_stepDeclarationOpen hmode c
  case declaration => exact reacts_stepDeclaration hmode c
  case comment => exact reacts_stepComment hmode c
  case tagName => exact reacts_stepTagName hmode c
  case beforeAttribute tag => exact reacts_stepBeforeAttribute (hmode ▸ .beforeAttribute tag) c
  case attributeName => exact reacts_stepAttributeName hmode c
  case afterAttributeName => exact reacts_stepAfterAttributeName hmode c
  case beforeValue => exact reacts_stepBeforeValue hmode c
  case quotedValue => exact reacts_stepQuotedValue hmode c
  case bareValue => exact reacts_stepBareValue hmode c
  case selfClosing => exact reacts_stepSelfClosing hmode c
  case endTagOpen => exact reacts_stepEndTagOpen hmode c
  case endTagName name =>
    exact reacts_ite (fun _ => reacts_into hmode .endTagName)
      fun _ => reacts_stepAfterEndTagName (hmode ▸ .endTagName name) _ c
  case afterEndTagName name =>
    exact reacts_stepAfterEndTagName (hmode ▸ .afterEndTagName name) _ c
  case rawText => exact reacts_stepRawText hmode c

end Scanner

end Stencil.Markup
