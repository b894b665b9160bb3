import Mathlib.Data.List.Induction
import Stencil.Proofs.Boundaries
import Stencil.Proofs.CanonicalMarkup

/-!
# Scanning canonical markup

Inside a construct the scanner only gathers characters, and its last character reports the construct
after the text before it. So the written form of a start tag, an end tag or a comment gives one event
for the construct, and text is held back until a construct begins. In raw text this is the end tag
alone.

## Main definitions

* `Scanner.within`, `Scanner.afterText`: a scanner inside a construct and inside a text
* `Scanner.Gathers`: characters inside a construct that lead from one mode to another

## Main results

* `Scanner.feed_renderStart`, `Scanner.feed_endTag`, `Scanner.feed_comment`: the constructs
* `Scanner.feed_text`, `Scanner.exists_feed_rawElement`: text and raw text
-/

namespace Stencil.Markup

namespace Scanner

variable {s : Scanner}

/-! ### Steps without events -/

theorem mem_of_append_singleton {before cs : List Char} {c : Char} (h : before ++ [c] <+: cs) :
    c ∈ cs :=
  h.subset (List.mem_append_right _ (List.mem_singleton.2 rfl))

/-- Characters that follow others which report nothing. -/
theorem feed_append_of_ok {next : Scanner} {first : List Char}
    (h : s.feed first = ([], .ok next)) (second : List Char) :
    s.feed (first ++ second) = next.feed second := by
  rw [feed_append, h]
  rfl

theorem feed_singleton {c : Char} {next : Scanner} {events : List Event}
    (h : s.step c = .ok (next, events)) : s.feed [c] = (events, .ok next) := by
  simp only [feed, h, List.append_nil]

theorem step_of_stepInMode {c : Char} {next : Scanner} {events : List Event}
    (h : s.stepInMode c = .ok (next, events)) :
    s.step c = .ok ({ next with location := s.location.next c }, events) := by
  rw [step, h]
  rfl

theorem exists_of_step {c : Char} {next : Scanner} {events : List Event}
    (h : s.step c = .ok (next, events)) :
    ∃ middle, s.stepInMode c = .ok (middle, events) ∧
      next = { middle with location := s.location.next c } := by
  cases hmode : s.stepInMode c with
  | error e =>
    rw [step, hmode] at h
    cases h
  | ok result =>
    rw [step_of_stepInMode hmode] at h
    obtain ⟨rfl, rfl⟩ := Prod.mk.inj (Except.ok.inj h)
    exact ⟨_, rfl, rfl⟩

/-- Characters are taken without events if each of them is, after those before it. -/
theorem feed_of_steps {cs : List Char} (state : List Char → Scanner)
    (h : ∀ before c, before ++ [c] <+: cs →
      (state before).step c = .ok (state (before ++ [c]), [])) :
    (state []).feed cs = ([], .ok (state cs)) := by
  induction cs using List.reverseRecOn with
  | nil => rfl
  | append_singleton cs c ih =>
    have hcs : (state []).feed cs = ([], .ok (state cs)) :=
      ih fun before d hd => h before d (hd.trans (List.prefix_append cs [c]))
    rw [feed_append_of_ok hcs]
    exact feed_singleton (h cs c (List.prefix_refl _))

/-- The state after the characters `cs` of a construct that begins at `s`. -/
def within (s : Scanner) (mode : Mode) (cs : List Char) : Scanner :=
  { s with
    mode
    location := s.location.advance cs
    markup := cs.reverse
    markupStart := s.location }

/-- Inside a construct that begins at `s`, after the characters `cs`, the characters `ds` lead from
one mode to another and are not reported. -/
def Gathers (s : Scanner) (cs : List Char) (mode : Mode) (ds : List Char) (mode' : Mode) : Prop :=
  (s.within mode cs).feed ds = ([], .ok (s.within mode' (cs ++ ds)))

namespace Gathers

variable {cs ds es : List Char} {mode mode' mode'' : Mode}

theorem trans (h : s.Gathers cs mode ds mode') (h' : s.Gathers (cs ++ ds) mode' es mode'') :
    s.Gathers cs mode (ds ++ es) mode'' := by
  rw [Gathers, feed_append_of_ok h, ← List.append_assoc]
  exact h'

theorem step_eq {c : Char}
    (h : (s.within mode cs).stepInMode c = ((s.within mode cs).pushMarkup c).into mode') :
    (s.within mode cs).step c = .ok (s.within mode' (cs ++ [c]), []) := by
  rw [step_of_stepInMode h]
  simp [within, pushMarkup, Location.advance_append]

theorem single {c : Char}
    (h : (s.within mode cs).stepInMode c = ((s.within mode cs).pushMarkup c).into mode') :
    s.Gathers cs mode [c] mode' :=
  feed_singleton (step_eq h)

/-- Characters that a mode holds, nearest first. -/
theorem characters (mode : List Char → Mode) (found : List Char)
    (h : ∀ before c, before ++ [c] <+: ds → ∀ t : Scanner,
      t.mode = mode (before.reverse ++ found) →
        t.stepInMode c = (t.pushMarkup c).into (mode (c :: before.reverse ++ found))) :
    s.Gathers cs (mode found) ds (mode (ds.reverse ++ found)) := by
  have hsteps : ∀ before c, before ++ [c] <+: ds →
      (s.within (mode (before.reverse ++ found)) (cs ++ before)).step c =
        .ok (s.within (mode ((before ++ [c]).reverse ++ found)) (cs ++ (before ++ [c])), []) := by
    intro before c hpart
    rw [step_eq (h before c hpart _ rfl)]
    simp
  have hfeed := feed_of_steps
    (fun before => s.within (mode (before.reverse ++ found)) (cs ++ before)) hsteps
  simpa [Gathers] using hfeed

end Gathers

end Scanner

/-! ### Start tags -/

/-- A mode in which a start tag may end or go on with an attribute; the tag is the one that would
end there. -/
inductive Mode.Holds : Mode → OpenTag → Prop
  | name (name : List Char) : Holds (.tagName name) ⟨String.ofList name.reverse, []⟩
  | value (tag : OpenTag) : Holds (.beforeAttribute tag) tag
  | flag (tag : OpenTag) (attr : OpenAttribute) :
    Holds (.attributeName tag attr) (tag.add (attr.close none none))

namespace Scanner

variable {s t : Scanner} {mode : Mode} {tag : OpenTag}

theorem stepInMode_greater (hmode : mode.Holds tag) (ht : t.mode = mode) :
    t.stepInMode '>' = (t.pushMarkup '>').reportStartTag tag false := by
  cases hmode <;> simp only [stepInMode, ht] <;> rfl

theorem stepInMode_slash (hmode : mode.Holds tag) (ht : t.mode = mode) :
    t.stepInMode '/' = (t.pushMarkup '/').into (.selfClosing tag) := by
  cases hmode <;> simp only [stepInMode, ht] <;> rfl

theorem not_of_continuesAttributeName {c : Char} (h : continuesAttributeName c = true) :
    Text.isBlank c = false ∧ c ≠ '>' ∧ c ≠ '/' ∧ c ≠ '"' ∧ c ≠ '\'' ∧ c ≠ '<' ∧ c ≠ '=' := by
  simpa [continuesAttributeName] using h

/-- After a blank an attribute can begin. -/
theorem exists_stepInMode_blank (hmode : mode.Holds tag) (ht : t.mode = mode) :
    ∃ mode', t.stepInMode ' ' = (t.pushMarkup ' ').into mode' ∧
      ∀ (u : Scanner) (c : Char), u.mode = mode' → continuesAttributeName c = true →
        u.stepInMode c = (u.pushMarkup c).into (.attributeName tag ⟨[c], u.location⟩) := by
  cases hmode with
  | name name =>
    refine ⟨.beforeAttribute _, by simp only [stepInMode, ht]; rfl, fun u c hu hc => ?_⟩
    obtain ⟨hblank, hc⟩ := not_of_continuesAttributeName hc
    simp [stepInMode, hu, stepBeforeAttribute, hblank, hc, pushMarkup]
  | value =>
    refine ⟨.beforeAttribute _, by simp only [stepInMode, ht]; rfl, fun u c hu hc => ?_⟩
    obtain ⟨hblank, hc⟩ := not_of_continuesAttributeName hc
    simp [stepInMode, hu, stepBeforeAttribute, hblank, hc, pushMarkup]
  | flag tag attr =>
    refine ⟨.afterAttributeName _ _, by simp only [stepInMode, ht]; rfl, fun u c hu hc => ?_⟩
    obtain ⟨hblank, hc⟩ := not_of_continuesAttributeName hc
    simp [stepInMode, hu, stepAfterAttributeName, hblank, hc, pushMarkup]

theorem gathers_attributeName (hmode : mode.Holds tag) (cs : List Char) {name : List Char}
    (hne : name ≠ []) (hname : ∀ c ∈ name, continuesAttributeName c = true) :
    s.Gathers cs mode (' ' :: name)
      (.attributeName tag ⟨name.reverse, (s.location.advance cs).next ' '⟩) := by
  obtain ⟨first, rest, rfl⟩ := List.exists_cons_of_ne_nil hne
  obtain ⟨hfirst, hrest⟩ := List.forall_mem_cons.1 hname
  obtain ⟨between, hblank, hbegin⟩ := exists_stepInMode_blank hmode (t := s.within mode cs) rfl
  have hbegin := hbegin (s.within between (cs ++ [' '])) first rfl hfirst
  have hhere : (s.within between (cs ++ [' '])).location = (s.location.advance cs).next ' ' := by
    simp [within, Location.advance_append]
  rw [hhere] at hbegin
  have hcharacters : s.Gathers (cs ++ [' '] ++ [first])
      (.attributeName tag ⟨[first], (s.location.advance cs).next ' '⟩) rest
      (.attributeName tag ⟨rest.reverse ++ [first], (s.location.advance cs).next ' '⟩) := by
    refine .characters (fun found => .attributeName tag ⟨found, _⟩) [first] ?_
    intro before c hpart u hu
    obtain ⟨hblank, hgreater, hslash, hdouble, hsingle, hless, hequals⟩ :=
      not_of_continuesAttributeName (hrest c (mem_of_append_singleton hpart))
    simp [stepInMode, hu, stepAttributeName, hblank, hgreater, hslash, hdouble, hsingle, hless,
      hequals]
  simpa using (Gathers.single hblank).trans ((Gathers.single hbegin).trans hcharacters)

theorem gathers_value (tag : OpenTag) (attr : OpenAttribute) (cs : List Char) {quote : Char}
    {text : List Char} (hquote : quote = '"' ∨ quote = '\'') (htext : quote ∉ text) :
    s.Gathers cs (.attributeName tag attr) ('=' :: quote :: text ++ [quote])
      (.beforeAttribute (tag.add (attr.close (some text.reverse) (some quote)))) := by
  have hequals : s.Gathers cs (.attributeName tag attr) ['='] (.beforeValue tag attr) :=
    .single rfl
  have hopen : s.Gathers (cs ++ ['=']) (.beforeValue tag attr) [quote]
      (.quotedValue tag attr quote []) := by
    rcases hquote with rfl | rfl <;> exact .single rfl
  have hcharacters : s.Gathers (cs ++ ['='] ++ [quote]) (.quotedValue tag attr quote []) text
      (.quotedValue tag attr quote (text.reverse ++ [])) := by
    refine .characters (fun found => .quotedValue tag attr quote found) [] ?_
    intro before c hpart u hu
    have hc : c ≠ quote := fun hc => htext (hc ▸ mem_of_append_singleton hpart)
    simp [stepInMode, hu, stepQuotedValue, hc]
  have hclose : s.Gathers (cs ++ ['='] ++ [quote] ++ text)
      (.quotedValue tag attr quote (text.reverse ++ [])) [quote]
      (.beforeAttribute (tag.add (attr.close (some text.reverse) (some quote)))) := by
    refine .single ?_
    simp [stepInMode, within, stepQuotedValue]
  simpa using ((hequals.trans hopen).trans (by simpa using hcharacters)).trans
    (by simpa using hclose)

end Scanner

/-- An attribute that is no directive, as it is written at `here`. -/
def Attribute.written (here : Location) (attr : Attribute) : WrittenAttribute :=
  ⟨attr.name, attr.value.text?, attr.quote, here⟩

/-- The attributes of a tag as they are written, the first after a blank at `here`. -/
def writtenAttributes (here : Location) : List Attribute → List WrittenAttribute
  | [] => []
  | attr :: rest =>
    attr.written (here.next ' ') :: writtenAttributes (here.advance attr.render) rest

namespace Scanner

variable {s : Scanner} {mode : Mode} {tag : OpenTag}

/-- An attribute is added to the tag. -/
theorem exists_gathers_attribute {attr : Attribute} (hattr : attr.Canonical)
    (hmode : mode.Holds tag) (cs : List Char) :
    ∃ mode', s.Gathers cs mode attr.render mode' ∧
      mode'.Holds (tag.add (attr.written ((s.location.advance cs).next ' '))) := by
  have hname := gathers_attributeName (s := s) hmode cs hattr.name_ne_nil
    (List.all_eq_true.1 hattr.name_continues)
  obtain ⟨name, value, quote?, here⟩ := attr
  have hvalue := hattr.value
  match value, quote?, hvalue with
  | .absent, none, _ =>
    refine ⟨_, by simpa [Attribute.render, AttributeValue.text?] using hname, ?_⟩
    simpa [OpenAttribute.close, Attribute.written, AttributeValue.text?] using
      Mode.Holds.flag tag ⟨name.toList.reverse, (s.location.advance cs).next ' '⟩
  | .literal text, some quote, ⟨hquote, htext, _⟩ =>
    have hgathers := hname.trans (gathers_value tag _ _ hquote htext)
    refine ⟨_, by simpa [Attribute.render, AttributeValue.text?] using hgathers, ?_⟩
    simpa [OpenAttribute.close, Attribute.written, AttributeValue.text?] using
      Mode.Holds.value (tag.add
        (OpenAttribute.close ⟨name.toList.reverse, (s.location.advance cs).next ' '⟩
          (some text.toList.reverse) (some quote)))

/-- Attributes are added to the tag, the last of them nearest. -/
theorem exists_gathers_attributes {attributes : List Attribute}
    (hattributes : ∀ attr ∈ attributes, attr.Canonical) (hmode : mode.Holds tag) (cs : List Char) :
    ∃ mode', s.Gathers cs mode (attributes.flatMap Attribute.render) mode' ∧
      mode'.Holds ⟨tag.name,
        (writtenAttributes (s.location.advance cs) attributes).reverse ++ tag.attributes⟩ := by
  induction attributes generalizing mode tag cs with
  | nil => exact ⟨mode, by simp [Gathers, feed], hmode⟩
  | cons attr rest ih =>
    obtain ⟨hattr, hrest⟩ := List.forall_mem_cons.1 hattributes
    obtain ⟨between, hgathers, hbetween⟩ := exists_gathers_attribute (s := s) hattr hmode cs
    obtain ⟨mode', hgathers', hmode'⟩ := ih hrest hbetween (cs ++ attr.render)
    refine ⟨mode', by simpa using hgathers.trans hgathers', ?_⟩
    simpa [writtenAttributes, OpenTag.add, Location.advance_append] using hmode'

/-- The state in which no text is held back. -/
def cleared (s : Scanner) : Scanner :=
  { s with text := [] }

/-- The last character of a construct reports the text before it, and then the construct. -/
theorem feed_report {cs : List Char} {c : Char} {event : Event} {mode' : Mode}
    (h : (s.within mode cs).stepInMode c =
      ((s.within mode cs).pushMarkup c).report mode' event) :
    (s.within mode cs).feed [c] =
      (s.textEvents ++ [event], .ok (s.cleared.within mode' (cs ++ [c]))) := by
  rw [feed_singleton (step_of_stepInMode h)]
  simp [within, cleared, pushMarkup, textEvents, Location.advance_append]

/-- A construct begins. -/
theorem feed_less (hs : s.mode = .text) : s.feed ['<'] = ([], .ok (s.within .tagOpen ['<'])) := by
  have hstep : s.stepInMode '<' =
      .ok ({ s with mode := .tagOpen, markup := ['<'], markupStart := s.location }, []) := by
    simp only [stepInMode, hs]
    rfl
  rw [feed_singleton (step_of_stepInMode hstep)]
  rfl

theorem Gathers.feed_eq {ds : List Char} (h : s.Gathers ['<'] .tagOpen ds mode)
    (hs : s.mode = .text) : s.feed ('<' :: ds) = ([], .ok (s.within mode ('<' :: ds))) :=
  (feed_append_of_ok (feed_less hs) ds).trans h

end Scanner

/-- The name of a canonical tag. -/
theorem Tag.Canonical.exists_name {tag : Tag} (htag : tag.Canonical) :
    ∃ first rest, tag.name.toList = first :: rest ∧ Text.isAlphabetic first = true ∧
      ∀ c ∈ rest, continuesTagName c = true := by
  have hbegins := htag.name_begins
  have hcontinues := htag.name_continues
  cases hname : tag.name.toList with
  | nil => simp [hname] at hbegins
  | cons first rest =>
    rw [hname] at hbegins hcontinues
    exact ⟨first, rest, rfl, hbegins, List.all_eq_true.1 hcontinues⟩

/-- A start tag as it is written at `here`. -/
def Tag.written (here : Location) (tag : Tag) : StartTag where
  name := tag.name
  attributes := writtenAttributes (here.advance ('<' :: tag.name.toList)) tag.attributes
  selfClosing := tag.selfClosing
  location := here

/-- The mode after a start tag. -/
def Tag.modeAfter (tag : Tag) : Mode :=
  if !tag.selfClosing && isRawTextElement tag.name then .rawText (Text.lowerAscii tag.name)
  else .text

namespace Scanner

variable {s : Scanner} {name : String} {content : List Char}

theorem gathers_tagName {tag : Tag} (htag : tag.Canonical) :
    s.Gathers ['<'] .tagOpen tag.name.toList (.tagName tag.name.toList.reverse) := by
  obtain ⟨first, rest, hname, hfirst, hrest⟩ := htag.exists_name
  have hbegin : s.Gathers ['<'] .tagOpen [first] (.tagName [first]) := by
    refine .single ?_
    have hmark : first ≠ '!' ∧ first ≠ '/' ∧ first ≠ '?' := by
      refine ⟨?_, ?_, ?_⟩ <;> rintro rfl <;> revert hfirst <;> decide
    simp [stepInMode, within, stepTagOpen, hmark, hfirst]
  have hcharacters : s.Gathers (['<'] ++ [first]) (.tagName [first]) rest
      (.tagName (rest.reverse ++ [first])) := by
    refine .characters .tagName [first] ?_
    intro before c hpart u hu
    have hc := hrest c (mem_of_append_singleton hpart)
    simp [stepInMode, hu, stepTagName, hc]
  simpa [hname] using hbegin.trans hcharacters

/-- The end of a start tag, with or without a slash. -/
theorem feed_tagEnd {mode : Mode} {tag : OpenTag} (hmode : mode.Holds tag) (cs : List Char)
    (selfClosing : Bool) :
    (s.within mode cs).feed (if selfClosing then ['/', '>'] else ['>']) =
      (s.textEvents ++ [.startTag ⟨tag.name, tag.attributes.reverse, selfClosing, s.location⟩],
        .ok (s.cleared.within
          (if !selfClosing && isRawTextElement tag.name then .rawText (Text.lowerAscii tag.name)
            else .text)
          (cs ++ if selfClosing then ['/', '>'] else ['>']))) := by
  cases selfClosing with
  | true =>
    have hslash : s.Gathers cs mode ['/'] (.selfClosing tag) :=
      .single (stepInMode_slash hmode rfl)
    have hend := feed_append_of_ok hslash ['>']
    have hreport : (s.within (.selfClosing tag) (cs ++ ['/'])).feed ['>'] = _ := feed_report rfl
    simpa [within, pushMarkup] using hend.trans hreport
  | false => exact feed_report (stepInMode_greater hmode rfl)

/-- A start tag is reported with its attributes. -/
theorem feed_renderStart (hs : s.mode = .text) {tag : Tag} (htag : tag.Canonical) :
    s.feed tag.renderStart = (s.textEvents ++ [.startTag (tag.written s.location)],
      .ok (s.cleared.within tag.modeAfter tag.renderStart)) := by
  have hname := gathers_tagName (s := s) htag
  obtain ⟨mode, hattributes, hmode⟩ := exists_gathers_attributes (s := s) htag.attributes
    (Mode.Holds.name tag.name.toList.reverse) (['<'] ++ tag.name.toList)
  have hopening := (hname.trans hattributes).feed_eq hs
  simp only [List.reverse_reverse, String.ofList_toList, List.append_nil] at hmode
  rw [Tag.renderStart, List.cons_append, feed_append_of_ok hopening, feed_tagEnd hmode,
    List.reverse_reverse]
  rfl

/-! ### End tags and comments -/

/-- An end tag is reported. -/
theorem feed_endTag (hs : s.mode = .text) {tag : Tag} (htag : tag.Canonical) :
    s.feed ('<' :: '/' :: tag.name.toList ++ ['>']) =
      (s.textEvents ++ [.endTag tag.name s.location],
        .ok (s.cleared.within .text ('<' :: '/' :: tag.name.toList ++ ['>']))) := by
  obtain ⟨first, rest, hname, hfirst, hrest⟩ := htag.exists_name
  have hslash : s.Gathers ['<'] .tagOpen ['/'] .endTagOpen := .single rfl
  have hbegin : s.Gathers (['<'] ++ ['/']) .endTagOpen [first] (.endTagName [first]) := by
    refine .single ?_
    simp [stepInMode, within, stepEndTagOpen, hfirst]
  have hcharacters : s.Gathers (['<'] ++ ['/'] ++ [first]) (.endTagName [first]) rest
      (.endTagName (rest.reverse ++ [first])) := by
    refine .characters .endTagName [first] ?_
    intro before c hpart u hu
    have hc := hrest c (mem_of_append_singleton hpart)
    simp [stepInMode, hu, stepEndTagName, hc]
  have hgathers : s.Gathers ['<'] .tagOpen ('/' :: tag.name.toList)
      (.endTagName tag.name.toList.reverse) := by
    simpa [hname] using (hslash.trans hbegin).trans hcharacters
  have hreport : (s.within (.endTagName tag.name.toList.reverse)
      ('<' :: '/' :: tag.name.toList)).feed ['>'] = _ := feed_report rfl
  rw [feed_append_of_ok (hgathers.feed_eq hs), hreport]
  simp [within, pushMarkup]

theorem stepInMode_comment {body : List Char} {c : Char} (hs : s.mode = .comment body)
    (h : ¬ (c = '>' ∧ ['-', '-'] <+: body)) :
    s.stepInMode c = (s.pushMarkup c).into (.comment (c :: body)) := by
  simp only [stepInMode, hs]
  unfold stepComment
  split
  · next text => exact absurd ⟨rfl, List.prefix_append ['-', '-'] text⟩ h
  · rfl

/-- A comment is reported, and the text before it as soon as it begins. -/
theorem feed_comment (hs : s.mode = .text) {text : List Char}
    (htext : ¬ ['-', '-', '>'] <:+: text) :
    s.feed (['<', '!', '-', '-'] ++ text ++ ['-', '-', '>']) =
      (s.textEvents ++ [.comment (String.ofList text) s.location],
        .ok (s.cleared.within .text (['<', '!', '-', '-'] ++ text ++ ['-', '-', '>']))) := by
  have hmark : s.Gathers ['<'] .tagOpen ['!'] (.declarationOpen false) := .single rfl
  have hdash : s.Gathers (['<'] ++ ['!']) (.declarationOpen false) ['-'] (.declarationOpen true) :=
    .single rfl
  have hbegin : s.feed ['<', '!', '-', '-'] =
      (s.textEvents, .ok (s.cleared.within (.comment []) ['<', '!', '-', '-'])) := by
    have hopening := (hmark.trans hdash).feed_eq hs
    have hflush : (s.within (.declarationOpen true) ['<', '!', '-']).feed ['-'] =
        (s.textEvents, .ok (s.cleared.within (.comment []) ['<', '!', '-', '-'])) :=
      feed_singleton rfl
    exact (feed_append_of_ok hopening ['-']).trans hflush
  have hcharacters : s.cleared.Gathers ['<', '!', '-', '-'] (.comment []) text
      (.comment (text.reverse ++ [])) := by
    refine .characters .comment [] ?_
    intro before c hpart u hu
    rw [List.append_nil] at hu
    refine (stepInMode_comment hu ?_).trans (by simp)
    -- Else the comment would hold what ends it.
    rintro ⟨rfl, hdashes⟩
    apply htext
    have hends : ['-', '-'] <:+ before := by simpa using List.reverse_suffix.2 hdashes
    obtain ⟨start, rfl⟩ := hends
    exact List.IsInfix.trans ⟨start, [], by simp⟩ hpart.isInfix
  have hdashes : s.cleared.Gathers (['<', '!', '-', '-'] ++ text) (.comment (text.reverse ++ []))
      ['-', '-'] (.comment ('-' :: '-' :: text.reverse)) := by
    have hfirst : s.cleared.Gathers (['<', '!', '-', '-'] ++ text) (.comment text.reverse) ['-']
        (.comment ('-' :: text.reverse)) :=
      .single (stepInMode_comment rfl (by simp))
    rw [List.append_nil]
    exact hfirst.trans (.single (stepInMode_comment rfl (by simp)))
  have hend : (s.cleared.within (.comment ('-' :: '-' :: text.reverse))
      (['<', '!', '-', '-'] ++ (text ++ ['-', '-']))).feed ['>'] =
        ([.comment (String.ofList text) s.location], .ok (s.cleared.within .text
          (['<', '!', '-', '-'] ++ (text ++ ['-', '-']) ++ ['>']))) := by
    refine (feed_singleton (step_of_stepInMode rfl)).trans ?_
    simp [within, pushMarkup, cleared, Location.advance_append]
  have hrest := (feed_append_of_ok (hcharacters.trans hdashes) ['>']).trans hend
  rw [List.append_assoc, feed_append, hbegin]
  simp only [List.append_assoc, List.cons_append, List.nil_append] at hrest ⊢
  rw [hrest]

/-! ### Texts -/

/-- The state after the characters `cs` of a text that begins at `s`. -/
def afterText (s : Scanner) (cs : List Char) : Scanner :=
  { s with
    location := s.location.advance cs
    text := cs.reverse
    textStart := if cs.isEmpty then s.textStart else s.location }

theorem afterText_nil (hs : s.text = []) : s.afterText [] = s := by
  obtain ⟨mode, location, text, textStart, markup, markupStart⟩ := s
  obtain rfl : text = [] := hs
  rfl

theorem pushText_afterText (cs : List Char) (c : Char) :
    { (s.afterText cs).pushText c with location := (s.afterText cs).location.next c } =
      s.afterText (cs ++ [c]) := by
  rcases List.eq_nil_or_concat cs with rfl | ⟨start, last, rfl⟩
  · rfl
  · simp [afterText, pushText, Location.advance_append]

theorem feed_afterText_single {cs : List Char} {c : Char}
    (h : (s.afterText cs).stepInMode c = .ok ((s.afterText cs).pushText c, [])) :
    (s.afterText cs).feed [c] = ([], .ok (s.afterText (cs ++ [c]))) := by
  rw [feed_singleton (step_of_stepInMode h), pushText_afterText]

/-- Characters that are added to a text. -/
theorem feed_afterText (cs ds : List Char)
    (h : ∀ before c, before ++ [c] <+: ds → ∀ t : Scanner, t.mode = s.mode →
      t.text = (cs ++ before).reverse → t.stepInMode c = .ok (t.pushText c, [])) :
    (s.afterText cs).feed ds = ([], .ok (s.afterText (cs ++ ds))) := by
  have hsteps : ∀ before c, before ++ [c] <+: ds →
      (s.afterText (cs ++ before)).step c = .ok (s.afterText (cs ++ (before ++ [c])), []) := by
    intro before c hpart
    rw [step_of_stepInMode (h before c hpart (s.afterText (cs ++ before)) rfl rfl),
      pushText_afterText, List.append_assoc]
  simpa using feed_of_steps (fun before => s.afterText (cs ++ before)) hsteps

/-- Text between constructs is held back. -/
theorem feed_text (hs : s.mode = .text) (htext : s.text = []) {cs : List Char} (hcs : '<' ∉ cs) :
    s.feed cs = ([], .ok (s.afterText cs)) := by
  have hfeed := feed_afterText (s := s) [] cs ?_
  · rwa [afterText_nil htext] at hfeed
  · intro before c hpart t ht _
    have hc : c ≠ '<' := fun hc => hcs (hc ▸ mem_of_append_singleton hpart)
    have hmode : t.mode = .text := ht.trans hs
    simp [stepInMode, hmode, stepText, hc, pushText]

/-! ### Raw text -/

theorem endsInEndTag_iff {text : List Char} :
    endsInEndTag name (text.take (name.length + 2)) = true ↔
      '<' :: '/' :: name.toList <:+ text.reverse.map Char.toLower := by
  have hreverse : name.toList.reverse ++ ['/', '<'] = ('<' :: '/' :: name.toList).reverse := by
    simp
  rw [endsInEndTag, List.isPrefixOf_iff_prefix, List.map_take, List.prefix_take_iff, hreverse,
    List.map_reverse, ← List.reverse_prefix, List.reverse_reverse]
  simp [String.length_toList]

theorem stepInMode_rawText {c : Char} (hs : s.mode = .rawText name)
    (h : c = '>' ∨ c = '/' ∨ Text.isBlank c = true →
      ¬ '<' :: '/' :: name.toList <:+ s.text.reverse.map Char.toLower) :
    s.stepInMode c = .ok (s.pushText c, []) := by
  simp only [stepInMode, hs, stepRawText]
  refine if_neg ?_
  rw [Bool.and_eq_true, endsInEndTag_iff]
  rintro ⟨hc, hends⟩
  exact h (by simpa [or_assoc] using hc) hends

/-- A blank is no letter. -/
theorem toLower_of_isBlank {c : Char} (h : Text.isBlank c = true) : c.toLower = c := by
  unfold Char.toLower
  refine dif_neg ?_
  rintro ⟨hlow, hhigh⟩
  simp only [Text.isBlank] at h
  split at h
  · simp only [Bool.or_eq_true, decide_eq_true_eq, Bool.and_eq_true] at h
    rcases h with rfl | ⟨-, hcontrol⟩
    · exact absurd hlow (by decide)
    · exact absurd (UInt32.le_trans hlow hcontrol) (by decide)
  · next hascii => exact hascii (UInt32.lt_of_le_of_lt hhigh (by decide))

/-- The names of raw text elements. -/
theorem map_toLower_of_isRawTextElement (hname : isRawTextElement name = true) :
    name.toList.map Char.toLower = "script".toList ∨
      name.toList.map Char.toLower = "style".toList := by
  have hwords : Text.lowerAscii "script" = "script" ∧ Text.lowerAscii "style" = "style" := by
    decide +kernel
  simp only [isRawTextElement, isOneOf, Text.eqIgnoringAsciiCase, hwords, List.any_cons,
    List.any_nil, Bool.or_false, Bool.or_eq_true, decide_eq_true_eq] at hname
  rcases hname with hname | hname <;> rw [hname] <;> simp [Text.lowerAscii]

/-- The characters of the name of a raw text element do not end its content. -/
theorem not_ends_of_isRawTextElement (hname : isRawTextElement name = true) {c : Char}
    (hc : c ∈ name.toList) : ¬ (c = '>' ∨ c = '/' ∨ Text.isBlank c = true) := by
  have hmem : c.toLower ∈ name.toList.map Char.toLower := List.mem_map_of_mem hc
  have hletters : ("script".toList ++ "style".toList).all
      (fun d => d ≠ '>' && d ≠ '/' && !Text.isBlank d) = true := by decide +kernel
  have hletter := List.all_eq_true.1 hletters c.toLower (by
    rcases map_toLower_of_isRawTextElement hname with h | h <;> rw [h] at hmem
    · exact List.mem_append_left _ hmem
    · exact List.mem_append_right _ hmem)
  simp only [Bool.and_eq_true, decide_eq_true_eq, Bool.not_eq_true'] at hletter
  rintro (rfl | rfl | hblank)
  · exact hletter.1.1 rfl
  · exact hletter.1.2 rfl
  · rw [toLower_of_isBlank hblank, hblank] at hletter
    exact absurd hletter.2 (by decide)

/-- The content of a raw text element is held back as text, up to and without the end of the end
tag. -/
theorem feed_rawText {tag : Tag} (hraw : isRawTextElement tag.name = true)
    (hs : s.mode = .rawText (Text.lowerAscii tag.name)) (htext : s.text = [])
    (hcontent : ¬ '<' :: '/' :: tag.name.toList.map Char.toLower <:+: content.map Char.toLower) :
    s.feed (content ++ '<' :: '/' :: tag.name.toList) =
      ([], .ok (s.afterText (content ++ '<' :: '/' :: tag.name.toList))) := by
  have hlower : (Text.lowerAscii tag.name).toList = tag.name.toList.map Char.toLower := by
    simp [Text.lowerAscii]
  have hfirst : s.feed content = ([], .ok (s.afterText content)) := by
    have hfeed := feed_afterText (s := s) [] content ?_
    · rwa [afterText_nil htext] at hfeed
    · intro before c hpart t ht hheld
      refine stepInMode_rawText (ht.trans hs) fun _ hends => hcontent ?_
      rw [hheld, hlower] at hends
      simp only [List.nil_append, List.reverse_reverse] at hends
      have hbefore : before <+: content := (List.prefix_append before [c]).trans hpart
      exact hends.isInfix.trans (hbefore.map _).isInfix
  have hless : (s.afterText content).feed ['<'] = ([], .ok (s.afterText (content ++ ['<']))) :=
    feed_afterText_single (stepInMode_rawText hs fun h => absurd h (by decide))
  have hslash : (s.afterText (content ++ ['<'])).feed ['/'] =
      ([], .ok (s.afterText (content ++ ['<'] ++ ['/']))) := by
    refine feed_afterText_single (stepInMode_rawText hs fun _ hends => ?_)
    -- The text ends in the bracket, and the name of the element does not.
    obtain ⟨start, hstart⟩ := hends
    have hlast := congrArg List.getLast? hstart
    rw [hlower] at hlast
    rcases map_toLower_of_isRawTextElement hraw with h | h <;> rw [h] at hlast <;>
      simp [afterText] at hlast
  have hname : (s.afterText (content ++ ['<'] ++ ['/'])).feed tag.name.toList =
      ([], .ok (s.afterText (content ++ ['<'] ++ ['/'] ++ tag.name.toList))) := by
    refine feed_afterText _ _ fun before c hpart t ht _ => ?_
    have hc : c ∈ tag.name.toList := mem_of_append_singleton hpart
    exact stepInMode_rawText (ht.trans hs) fun h => absurd h (not_ends_of_isRawTextElement hraw hc)
  calc s.feed (content ++ (['<'] ++ (['/'] ++ tag.name.toList)))
      = (s.afterText content).feed (['<'] ++ (['/'] ++ tag.name.toList)) :=
        feed_append_of_ok hfirst _
    _ = (s.afterText (content ++ ['<'])).feed (['/'] ++ tag.name.toList) :=
        feed_append_of_ok hless _
    _ = (s.afterText (content ++ ['<'] ++ ['/'])).feed tag.name.toList :=
        feed_append_of_ok hslash _
    _ = _ := by
        rw [hname]
        simp

/-- The state in which `</` and a name of so many characters are cut off the text. -/
def endTagCut (s : Scanner) (width : Nat) : Scanner :=
  { s with
    mode := .endTagName (s.text.take width)
    text := s.text.drop (width + 2)
    markup := s.text.take (width + 2)
    markupStart := ⟨s.location.line, s.location.column - (width + 2)⟩ }

/-- Where the text ends in `</` and the name of the raw text element, these begin an end tag. -/
theorem stepInMode_rawEnd {written : List Char} {c : Char} (hs : s.mode = .rawText name)
    (hname : name.toList = written.map Char.toLower)
    (htext : s.text = (content ++ '<' :: '/' :: written).reverse)
    (hc : c = '>' ∨ c = '/' ∨ Text.isBlank c = true) :
    let cut := (s.endTagCut written.length).pushMarkup c
    cut.text = content.reverse ∧ s.stepInMode c =
      if c = '>' then cut.reportEndTag (String.ofList written)
      else cut.into (.afterEndTagName (String.ofList written)) := by
  have hlength : name.length = written.length := by
    rw [← String.length_toList, hname, List.length_map]
  have hwritten : (s.text.take name.length).reverse = written := by
    simp [htext, hlength]
  have hcontent : s.text.drop (written.length + 2) = content.reverse := by
    simp [htext, List.drop_append]
  refine ⟨hcontent, ?_⟩
  simp only [stepInMode, hs, stepRawText]
  rw [if_pos, hwritten, hlength]
  · rfl
  · rw [Bool.and_eq_true, endsInEndTag_iff, htext, hname]
    exact ⟨by simpa [or_assoc] using hc, content.map Char.toLower, by simp⟩

/-- Where the text ends in `</` and the name of the raw text element, the end tag is reported after
the text before. -/
theorem exists_step_rawEnd {written : List Char} (hs : s.mode = .rawText name)
    (hname : name.toList = written.map Char.toLower)
    (htext : s.text = (content ++ '<' :: '/' :: written).reverse) :
    ∃ here next, s.step '>' = .ok (next,
        { s with text := content.reverse }.textEvents ++ [.endTag (String.ofList written) here]) ∧
      next.mode = .text ∧ next.text = [] ∧ next.location = s.location.next '>' := by
  obtain ⟨hcontent, hstep⟩ := stepInMode_rawEnd hs hname htext (.inl rfl)
  rw [← hcontent]
  exact ⟨_, _, step_of_stepInMode hstep, rfl, rfl, rfl⟩

/-- The end tag of a raw text element is reported after the content. -/
theorem exists_feed_rawElement {tag : Tag} (hraw : isRawTextElement tag.name = true)
    (hs : s.mode = .rawText (Text.lowerAscii tag.name)) (htext : s.text = [])
    (hcontent : ¬ '<' :: '/' :: tag.name.toList.map Char.toLower <:+: content.map Char.toLower) :
    ∃ here next, s.feed (content ++ '<' :: '/' :: tag.name.toList ++ ['>']) =
        ((s.afterText content).textEvents ++ [.endTag tag.name here], .ok next) ∧
      next.mode = .text ∧ next.text = [] ∧
      next.location = s.location.advance (content ++ '<' :: '/' :: tag.name.toList ++ ['>']) := by
  have hlower : (Text.lowerAscii tag.name).toList = tag.name.toList.map Char.toLower := by
    simp [Text.lowerAscii]
  obtain ⟨here, next, hstep, hmode, hnone, hlocation⟩ := exists_step_rawEnd
    (s := s.afterText (content ++ '<' :: '/' :: tag.name.toList)) hs hlower rfl
  have hevents : { s.afterText (content ++ '<' :: '/' :: tag.name.toList) with
      text := content.reverse }.textEvents = (s.afterText content).textEvents := by
    cases content <;> simp [textEvents, afterText]
  refine ⟨here, next, ?_, hmode, hnone, ?_⟩
  · rw [feed_append_of_ok (feed_rawText hraw hs htext hcontent), feed_singleton hstep, hevents,
      String.ofList_toList]
  · rw [hlocation, Location.advance_append]
    rfl

end Scanner

end Stencil.Markup
