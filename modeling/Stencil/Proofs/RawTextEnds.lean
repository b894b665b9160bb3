import Mathlib.Data.Nat.Find
import Stencil.Proofs.AcceptedTags
import Stencil.Proofs.Segments

/-!
# Where raw text ends

Behind the start tag of a raw text element all characters are text, up to the first end tag of the
element. The scanner finds out about this end tag behind its name, when it has already been taken
for text, and goes back to where it began. If there is no end tag, all that follows is text.

The text can be taken in any pieces, since its events do not depend on them.

## Main definitions

* `Scanner.feedAll`, `Scanner.scan`: taking a text in pieces, and all of its events
* `BeginsEndTag`: an end tag of a raw text element
* `ReadsRawText`: the events behind the start tag of a raw text element

## Main results

* `Scanner.scan_eq_events`: the events of a text in pieces are those of the text
* `Scanner.readsRawText_of_feed`: the events from the first character of raw text on
* `Scanner.rawText_ends_of_scan`: where the raw text behind a start tag ends
-/

namespace Stencil.Markup

/-! ### Raw text and what is read -/

/-- The characters begin with an end tag of the element `name`: a bracket and a slash, `written` as
the name up to the case of ASCII letters, and a character that ends the name. -/
def BeginsEndTag (name : String) (written cs : List Char) : Prop :=
  ∃ c rest, cs = '<' :: '/' :: (written ++ c :: rest) ∧
    Text.lowerAscii (String.ofList written) = Text.lowerAscii name ∧
    (c = '>' ∨ c = '/' ∨ Text.isBlank c = true)

/-- The event of a text, if there is any. -/
def textAt (here : Location) (cs : List Char) : List Event :=
  if cs.isEmpty then [] else [.text (String.ofList cs) here]

/-- The events of the characters `source` behind the start tag of the raw text element `name`. -/
inductive ReadsRawText (name : String) (here : Location) (source : List Char) : List Event → Prop
  /-- The content goes up to the first end tag of the element. -/
  | closed {content written rest : List Char} (later : List Event)
    (hsource : source = content ++ rest) (hends : BeginsEndTag name written rest)
    (hfirst : ∀ n < content.length, ∀ other, ¬ BeginsEndTag name other (source.drop n)) :
    ReadsRawText name here source
      (textAt here content ++ .endTag (String.ofList written) (here.advance content) :: later)
  /-- There is no end tag of the element. -/
  | unclosed (hnone : ∀ n other, ¬ BeginsEndTag name other (source.drop n)) :
    ReadsRawText name here source (textAt here source ++ [.finish (here.advance source)])

section Names

variable {name : String} {written cs : List Char}

theorem lowerAscii_ofList_eq_iff :
    Text.lowerAscii (String.ofList written) = Text.lowerAscii name ↔
      written.map Char.toLower = (Text.lowerAscii name).toList := by
  rw [← String.toList_inj, Text.lowerAscii, String.toList_ofList, String.toList_ofList]

theorem length_of_lowerAscii_eq
    (h : Text.lowerAscii (String.ofList written) = Text.lowerAscii name) :
    written.length = name.length := by
  have hlength := congrArg List.length (lowerAscii_ofList_eq_iff.1 h)
  simpa [Text.lowerAscii, String.length_toList] using hlength

/-- If there are end tags, one of them is the first. -/
theorem BeginsEndTag.exists_first {n : Nat} (h : BeginsEndTag name written (cs.drop n)) :
    ∃ content written rest, cs = content ++ rest ∧ BeginsEndTag name written rest ∧
      ∀ m < content.length, ∀ other, ¬ BeginsEndTag name other (cs.drop m) := by
  classical
  have hsome : ∃ n written, BeginsEndTag name written (cs.drop n) := ⟨n, written, h⟩
  obtain ⟨first, hfirst⟩ := Nat.find_spec hsome
  refine ⟨cs.take (Nat.find hsome), first, _, (List.take_append_drop _ cs).symm, hfirst, ?_⟩
  intro m hm other hother
  rw [List.length_take] at hm
  exact Nat.find_min hsome (lt_of_lt_of_le hm (min_le_left _ _)) ⟨other, hother⟩

end Names

namespace Scanner

variable {s next last : Scanner} {c : Char} {cs : List Char} {tag : StartTag}
  {before after found ending : List Event}

/-! ### Taking a text in pieces -/

/-- Takes pieces of a text in turn. The events before a failure are kept. -/
def feedAll (s : Scanner) : List (List Char) → List Event × Except MarkupError Scanner
  | [] => ([], .ok s)
  | piece :: rest =>
    match s.feed piece with
    | (events, .error e) => (events, .error e)
    | (events, .ok next) =>
      let (more, result) := next.feedAll rest
      (events ++ more, result)

/-- The events of a text that is taken in pieces, up to its end. -/
def scan (pieces : List (List Char)) : Except MarkupError (List Event) :=
  match start.feedAll pieces with
  | (_, .error e) => .error e
  | (events, .ok s) =>
    match s.finish with
    | .error e => .error e
    | .ok last => .ok (events ++ last)

theorem feedAll_eq_feed (s : Scanner) (pieces : List (List Char)) :
    s.feedAll pieces = s.feed pieces.flatten := by
  induction pieces generalizing s with
  | nil => rfl
  | cons piece rest ih =>
    rw [feedAll, List.flatten_cons, feed_append]
    rcases s.feed piece with ⟨events, e | next⟩
    · rfl
    · simp only [ih next]

/-- The events do not depend on the pieces. -/
theorem scan_eq_events (pieces : List (List Char)) : scan pieces = events pieces.flatten := by
  rw [scan, feedAll_eq_feed]
  rfl

/-! ### The character that reports a start tag -/

/-- The step reports no start tag. -/
def NoStartTag (result : Step) : Prop :=
  ∀ next found, result = .ok (next, found) → ∀ tag, .startTag tag ∉ found

/-- The step reports no start tag, unless it takes the `>` at the end of one. -/
def StartTagEnds (s : Scanner) (c : Char) (result : Step) : Prop :=
  NoStartTag result ∨
    c = '>' ∧ ∃ tag selfClosing, result = (s.pushMarkup c).reportStartTag tag selfClosing

theorem noStartTag_ok (h : ∀ tag, .startTag tag ∉ found) : NoStartTag (.ok (next, found)) := by
  rintro _ _ ⟨⟩
  exact h

theorem noStartTag_silent (next : Scanner) : NoStartTag (.ok (next, [])) :=
  noStartTag_ok fun _ => List.not_mem_nil

theorem noStartTag_reportEndTag (s : Scanner) (name : String) :
    NoStartTag (s.reportEndTag name) := by
  refine noStartTag_ok fun tag htag => ?_
  rcases List.mem_append.1 htag with htext | hlast
  · exact startTag_notMem_textEvents tag htext
  · cases List.mem_singleton.1 hlast

theorem noStartTag_stepText (s : Scanner) (c : Char) : NoStartTag (s.stepText c) := by
  unfold stepText
  split <;> exact noStartTag_silent _

/-- A start tag is reported by its last character, and there is nothing else to report behind it. -/
theorem startTagEnds_stepInMode (s : Scanner) (c : Char) : StartTagEnds s c (s.stepInMode c) := by
  have hreacts := reacts_stepInMode s c
  generalize s.stepInMode c = result at hreacts ⊢
  cases hreacts with
  | startTag _ hc | emptyTag _ hc => exact .inr ⟨hc, _, _, rfl⟩
  | text | bracket => exact .inl (noStartTag_stepText _ c)
  | fault => exact .inl nofun
  | endTag | rawEnd => exact .inl (noStartTag_reportEndTag _ _)
  | commentOpen => exact .inl (noStartTag_ok startTag_notMem_textEvents)
  | commentEnd => exact .inl (noStartTag_ok (by simp))
  | goesOn | declaration | comment | rawText | rawGap => exact .inl (noStartTag_silent _)

/-! ### Where a start tag is reported -/

/-- A step that reports a start tag takes its `>`, and reports it last. Behind it there is no text
yet, and raw text follows if the element has any. -/
theorem eq_of_step_startTag (h : s.step c = .ok (next, before ++ .startTag tag :: after)) :
    c = '>' ∧ after = [] ∧ next.text = [] ∧ next.mode =
      if !tag.selfClosing && isRawTextElement tag.name then .rawText (Text.lowerAscii tag.name)
      else .text := by
  obtain ⟨middle, hstep, rfl⟩ := exists_of_step h
  rcases startTagEnds_stepInMode s c with hnone | ⟨hc, opened, selfClosing, hreport⟩
  · exact absurd (List.mem_append_right _ List.mem_cons_self) (hnone _ _ hstep tag)
  · rw [hstep] at hreport
    obtain ⟨rfl, hevents⟩ := Prod.mk.inj (Except.ok.inj hreport)
    -- Text comes before the tag, so the tag is the last event.
    rcases List.eq_nil_or_concat after with rfl | ⟨after, final, rfl⟩
    · obtain ⟨-, htag⟩ := List.append_inj' hevents rfl
      obtain rfl := Event.startTag.inj (List.cons.inj htag).1
      exact ⟨hc, rfl, rfl, rfl⟩
    · rw [List.concat_eq_append, ← List.cons_append, ← List.append_assoc] at hevents
      obtain ⟨htexts, -⟩ := List.append_inj' hevents rfl
      exact absurd (htexts ▸ List.mem_append_right _ List.mem_cons_self)
        (startTag_notMem_textEvents tag)

/-- An event in two lists of events is in the first or in the second. -/
theorem append_eq_append_cons {first second : List Event} {event : Event}
    (h : first ++ second = before ++ event :: after) :
    (∃ between, first = before ++ event :: between ∧ after = between ++ second) ∨
      ∃ between, before = first ++ between ∧ second = between ++ event :: after := by
  rcases List.append_eq_append_iff.1 h with ⟨between, hbefore, hsecond⟩ | ⟨between, hfirst, hevent⟩
  · exact .inr ⟨between, hbefore, hsecond⟩
  · rcases List.cons_eq_append_iff.1 hevent with ⟨rfl, hsecond⟩ | ⟨between, rfl, hafter⟩
    · exact .inr ⟨[], by simpa using hfirst.symm, hsecond⟩
    · exact .inl ⟨between, hfirst, hafter⟩

/-- Where in a text a start tag is reported. -/
theorem exists_of_feed_startTag (h : s.feed cs = (before ++ .startTag tag :: after, .ok last)) :
    ∃ front rest next, cs = front ++ '>' :: rest ∧ (s.feed front).1 <+: before ∧
      s.feed (front ++ ['>']) = (before ++ [.startTag tag], .ok next) ∧
      next.feed rest = (after, .ok last) ∧ next.text = [] ∧ next.mode =
        if !tag.selfClosing && isRawTextElement tag.name then .rawText (Text.lowerAscii tag.name)
        else .text := by
  induction cs generalizing s before with
  | nil => simp [feed] at h
  | cons c cs ih =>
    rw [feed] at h
    split at h
    · cases (Prod.mk.inj h).2
    · next middle found hstep =>
      obtain ⟨hevents, hresult⟩ := Prod.mk.inj h
      rcases append_eq_append_cons hevents with ⟨between, rfl, rfl⟩ | ⟨between, rfl, hlater⟩
      · obtain ⟨rfl, rfl, hnext⟩ := eq_of_step_startTag hstep
        exact ⟨[], cs, middle, rfl, List.nil_prefix, feed_singleton hstep,
          Prod.ext rfl hresult, hnext⟩
      · -- The tag is reported by a later character.
        obtain ⟨front, rest, next, rfl, hfront, hfeed, hnext⟩ := ih (Prod.ext hlater hresult)
        refine ⟨c :: front, rest, next, rfl, ?_, ?_, hnext⟩
        · simp only [feed, hstep]
          exact (List.prefix_append_right_inj found).2 hfront
        · simp only [List.cons_append, feed, hstep, hfeed, List.append_assoc]

/-! ### The characters of raw text -/

section RawText

variable {name : String} {content written rest : List Char}

theorem textEvents_afterText (s : Scanner) (cs : List Char) :
    (s.afterText cs).textEvents = textAt s.location cs := by
  cases cs <;> simp [textEvents, afterText, textAt]

/-- Text that ends in an end tag, up to case, has a written end tag at its end. -/
theorem exists_of_endTag_suffix (h : '<' :: '/' :: name.toList <:+ cs.map Char.toLower) :
    ∃ content written, cs = content ++ '<' :: '/' :: written ∧
      written.map Char.toLower = name.toList := by
  obtain ⟨front, hfront⟩ := h
  obtain ⟨content, mark, rfl, -, hmark⟩ := List.map_eq_append_iff.1 hfront.symm
  obtain ⟨less, rest, rfl, hless, hrest⟩ := List.map_eq_cons_iff.1 hmark
  obtain ⟨slash, written, rfl, hslash, hwritten⟩ := List.map_eq_cons_iff.1 hrest
  obtain rfl := eq_of_toLower_eq hless (by decide)
  obtain rfl := eq_of_toLower_eq hslash (by decide)
  exact ⟨content, written, rfl, hwritten⟩

/-- Characters in which the name of no end tag has ended are taken for text. -/
theorem feed_rawText_of_not_begins (hmode : s.mode = .rawText (Text.lowerAscii name))
    (htext : s.text = []) (rest : List Char)
    (h : ∀ n, n + (name.length + 2) < cs.length → ∀ other,
      ¬ BeginsEndTag name other ((cs ++ rest).drop n)) :
    s.feed cs = ([], .ok (s.afterText cs)) := by
  have hfeed := feed_afterText (s := s) [] cs ?_
  · rwa [afterText_nil htext] at hfeed
  · intro before c hpart t ht hheld
    refine stepInMode_rawText (ht.trans hmode) fun hc hends => ?_
    rw [hheld, List.nil_append, List.reverse_reverse] at hends
    obtain ⟨content, written, rfl, hwritten⟩ := exists_of_endTag_suffix hends
    obtain ⟨later, rfl⟩ := hpart
    have hname := lowerAscii_ofList_eq_iff.2 hwritten
    refine h content.length ?_ written ⟨c, later ++ rest, ?_, hname, hc⟩
    · have hlength := length_of_lowerAscii_eq hname
      simp only [List.length_append, List.length_cons, List.length_nil]
      omega
    · simp

/-- Behind the name of an end tag only blanks can follow, and the end tag is reported after the text
in front of it. -/
theorem exists_of_feed_afterEndTagName (hmode : s.mode = .afterEndTagName name)
    (hfeed : s.feed cs = (found, .ok last)) (hfinish : last.finish = .ok ending) :
    ∃ later, found = s.textEvents ++ .endTag name s.markupStart :: later := by
  induction cs generalizing s found with
  | nil =>
    obtain ⟨-, hlast⟩ := Prod.mk.inj hfeed
    obtain rfl := Except.ok.inj hlast
    simp only [finish, hmode] at hfinish
    cases hfinish
  | cons c cs ih =>
    have hstep : s.stepInMode c = s.stepAfterEndTagName name c := by
      simp only [stepInMode, hmode]
    unfold stepAfterEndTagName at hstep
    dsimp only at hstep
    split at hstep
    · rw [feed, step_of_stepInMode hstep] at hfeed
      obtain ⟨later, hlater⟩ := ih rfl hfeed
      exact ⟨later, hlater⟩
    · split at hstep
      · rw [feed, step_of_stepInMode hstep] at hfeed
        obtain ⟨rfl, -⟩ := Prod.mk.inj hfeed
        exact ⟨_, List.append_assoc _ _ _⟩
      · rw [feed, step, hstep] at hfeed
        cases (Prod.mk.inj hfeed).2

/-- There is no line feed in the end tag, so its columns can be counted back. -/
theorem markupStart_endTagCut {here : Location} (hline : '\n' ∉ written)
    (hlocation : s.location = here.advance ('<' :: '/' :: written)) :
    (s.endTagCut written.length).markupStart = here := by
  rw [Location.advance_eq_shift _ _ (by simpa using hline)] at hlocation
  simp [endTagCut, hlocation, Location.shift]

theorem newline_notMem_written (hraw : isRawTextElement name = true)
    (hname : Text.lowerAscii (String.ofList written) = Text.lowerAscii name) :
    '\n' ∉ written := by
  have hwritten : isRawTextElement (String.ofList written) = true := by
    simpa only [isRawTextElement, isOneOf, Text.eqIgnoringAsciiCase, hname] using hraw
  intro hline
  rw [← String.toList_ofList (l := written)] at hline
  exact not_ends_of_isRawTextElement hwritten hline (.inr (.inr (by decide)))

/-- The first end tag of the element is reported, after the text in front of it. -/
theorem exists_of_feed_closed (hraw : isRawTextElement name = true)
    (hmode : s.mode = .rawText (Text.lowerAscii name)) (htext : s.text = [])
    (hends : BeginsEndTag name written rest)
    (hfirst : ∀ n < content.length, ∀ other,
      ¬ BeginsEndTag name other ((content ++ rest).drop n))
    (hfeed : s.feed (content ++ rest) = (found, .ok last)) (hfinish : last.finish = .ok ending) :
    ∃ later, found = textAt s.location content ++
      .endTag (String.ofList written) (s.location.advance content) :: later := by
  obtain ⟨c, more, rfl, hname, hc⟩ := hends
  have hsplit : content ++ '<' :: '/' :: (written ++ c :: more) =
      (content ++ '<' :: '/' :: written) ++ c :: more := by simp
  rw [hsplit] at hfeed hfirst
  -- An end tag that is complete before `c` would begin before this one.
  have hsilent := feed_rawText_of_not_begins hmode htext (c :: more) fun n hn other => by
    refine hfirst n ?_ other
    have hlength := length_of_lowerAscii_eq hname
    simp only [List.length_append, List.length_cons] at hn
    omega
  rw [feed_append_of_ok hsilent] at hfeed
  generalize ht : s.afterText (content ++ '<' :: '/' :: written) = t at hfeed
  have htmode : t.mode = .rawText (Text.lowerAscii name) := by rw [← ht]; exact hmode
  obtain ⟨hcontent, hstep⟩ := stepInMode_rawEnd htmode (lowerAscii_ofList_eq_iff.1 hname).symm
    (by rw [← ht]; rfl) hc
  have hstart : (t.endTagCut written.length).markupStart = s.location.advance content := by
    refine markupStart_endTagCut (newline_notMem_written hraw hname) ?_
    rw [← ht, ← Location.advance_append]
    rfl
  have htexts : ((t.endTagCut written.length).pushMarkup c).textEvents =
      textAt s.location content := by
    have htextStart : t.textStart = s.location := by rw [← ht]; simp [afterText]
    rw [textEvents, hcontent]
    simp [textAt, pushMarkup, endTagCut, htextStart]
  rw [← hstart, ← htexts]
  split at hstep
  · rw [feed, step_of_stepInMode hstep] at hfeed
    obtain ⟨rfl, -⟩ := Prod.mk.inj hfeed
    exact ⟨_, List.append_assoc _ _ _⟩
  · rw [feed, step_of_stepInMode hstep] at hfeed
    obtain ⟨later, hlater⟩ := exists_of_feed_afterEndTagName rfl hfeed hfinish
    exact ⟨later, hlater⟩

/-- From its first character on, raw text goes up to the first end tag of its element. -/
theorem readsRawText_of_feed (hraw : isRawTextElement name = true)
    (hmode : s.mode = .rawText (Text.lowerAscii name)) (htext : s.text = [])
    (hfeed : s.feed cs = (found, .ok last)) (hfinish : last.finish = .ok ending) :
    ReadsRawText name s.location cs (found ++ ending) := by
  by_cases hsome : ∃ n written, BeginsEndTag name written (cs.drop n)
  · obtain ⟨n, other, hother⟩ := hsome
    obtain ⟨content, written, rest, rfl, hends, hfirst⟩ := hother.exists_first
    obtain ⟨later, rfl⟩ := exists_of_feed_closed hraw hmode htext hends hfirst hfeed hfinish
    rw [List.append_assoc, List.cons_append]
    exact .closed _ rfl hends hfirst
  · have hnone : ∀ n other, ¬ BeginsEndTag name other (cs.drop n) :=
      fun n other hother => hsome ⟨n, other, hother⟩
    have hsilent : s.feed cs = ([], .ok (s.afterText cs)) := by
      refine feed_rawText_of_not_begins hmode htext [] fun n _ other => ?_
      rw [List.append_nil]
      exact hnone n other
    rw [hsilent] at hfeed
    obtain ⟨rfl, hlast⟩ := Prod.mk.inj hfeed
    obtain rfl := Except.ok.inj hlast
    have hend : (s.afterText cs).finish =
        .ok (textAt s.location cs ++ [.finish (s.location.advance cs)]) := by
      rw [← textEvents_afterText]
      simp only [finish, afterText, hmode]
    rw [hend] at hfinish
    obtain rfl := Except.ok.inj hfinish
    exact .unclosed hnone

end RawText

/-- **Raw text ends at its end tag.** Behind the start tag of a raw text element, if the tag does
not close the element itself, text goes up to the first end tag of the element. It is reported as
one text, and the end tag with its name as it is written and with the location of its bracket. If
there is no end tag, all that is left is text, and nothing but the end follows it. The start tag is
reported by its last character, so `source` is what stands behind it. The text can be taken in any
pieces. -/
theorem rawText_ends_of_scan {pieces : List (List Char)}
    (h : scan pieces = .ok (before ++ .startTag tag :: after))
    (hraw : isRawTextElement tag.name = true) (hopen : tag.selfClosing = false) :
    ∃ front source, pieces.flatten = front ++ '>' :: source ∧
      (start.feed front).1 <+: before ∧
      (start.feed (front ++ ['>'])).1 = before ++ [.startTag tag] ∧
      ReadsRawText tag.name (Location.start.advance (front ++ ['>'])) source after := by
  rw [scan_eq_events] at h
  obtain ⟨first, s, ending, hfeed, hfinish, hevents⟩ := events_eq_ok_iff.1 h
  rcases append_eq_append_cons hevents.symm with ⟨between, rfl, rfl⟩ | ⟨between, -, rfl⟩
  · obtain ⟨front, source, next, hsource, hfront, hreport, hrest, htext, hmode⟩ :=
      exists_of_feed_startTag hfeed
    obtain ⟨-, -, -, hlocation⟩ := Tracks.start.feed rfl hreport
    rw [hraw, hopen] at hmode
    refine ⟨front, source, hsource, hfront, congrArg Prod.fst hreport, ?_⟩
    rw [← List.nil_append (front ++ ['>']), ← hlocation]
    exact readsRawText_of_feed hraw hmode htext hrest hfinish
  · exact absurd (List.mem_append_right _ List.mem_cons_self)
      (startTag_notMem_of_finish hfinish)

/-- Two raw text elements, in pieces that cut their tags. In the first one a bracket and a longer
name stand in front of the end tag, and the second one has no end tag. -/
def rawPieces : List (List Char) :=
  ["<p>x</p><SCRI".toList, "PT>é</</scr".toList, "iptx></Script\n >b<style>".toList,
    "c</style".toList]

/-- What is reported before the first raw text. -/
def rawBefore : List Event :=
  [.startTag ⟨"p", [], false, ⟨1, 1⟩⟩, .text "x" ⟨1, 4⟩, .endTag "p" ⟨1, 5⟩]

/-- What is reported between the raw texts. -/
def rawBetween : List Event :=
  [.text "é</</scriptx>" ⟨1, 17⟩, .endTag "Script" ⟨1, 30⟩, .text "b" ⟨2, 3⟩]

theorem rawText_ends_of_scan_pieces :
    ∃ script style rest, scan rawPieces =
        .ok (rawBefore ++ .startTag script :: (rawBetween ++ .startTag style :: rest)) ∧
      (∃ front source, rawPieces.flatten = front ++ '>' :: source ∧
        ReadsRawText "SCRIPT" (Location.start.advance (front ++ ['>'])) source
          (rawBetween ++ .startTag style :: rest)) ∧
      ∃ front source, rawPieces.flatten = front ++ '>' :: source ∧
        ReadsRawText "style" (Location.start.advance (front ++ ['>'])) source rest := by
  have hscan : scan rawPieces = .ok (rawBefore ++ .startTag ⟨"SCRIPT", [], false, ⟨1, 9⟩⟩ ::
      (rawBetween ++ .startTag ⟨"style", [], false, ⟨2, 4⟩⟩ ::
        [.text "c</style" ⟨2, 11⟩, .finish ⟨2, 19⟩])) := by decide +kernel
  obtain ⟨front, source, hsource, -, -, hreads⟩ :=
    rawText_ends_of_scan hscan (by decide +kernel) rfl
  have hscan' := hscan
  rw [← List.cons_append, ← List.append_assoc] at hscan'
  obtain ⟨front', source', hsource', -, -, hreads'⟩ :=
    rawText_ends_of_scan hscan' (by decide +kernel) rfl
  exact ⟨_, _, _, hscan, ⟨front, source, hsource, hreads⟩, front', source', hsource', hreads'⟩

end Scanner

end Stencil.Markup
