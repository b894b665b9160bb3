import Stencil.Proofs.RawTextEnds

/-!
# Where a scan fails

A fault is found in the construct that is being read, and points at the bracket that the construct
begins with. The construct is kept as it is written: also where half of it was taken for text, in
comments, and where the end tag of a raw text element was cut off the text. So the source that is
shown goes from the bracket up to the character at fault, and in front of the bracket are the slices
of all that has been reported and the text that has not.

## Main definitions

* `Scanner.Advances`: what a character does to a construct
* `Scanner.Bracketed`: a construct begins with a bracket
* `Scanner.Stops`: where a fault ends the scan of a text

## Main results

* `Scanner.Tracks.advances_stepInMode`: what a character does, in all modes
* `Scanner.Tracks.bracketed_feed`: constructs begin with a bracket after every text
* `Scanner.error_of_scan`: a fault points at the construct that is open
-/

namespace Stencil.Markup

namespace Scanner

variable {s next : Scanner} {input seen : List Char} {parts : List (Event × List Char)}
  {found : List Event} {c : Char} {e : MarkupError}

/-! ### What a character does to a construct -/

/-- What a character does: there is a fault in the construct that is being read, the construct goes
on, another one begins, or none is open afterwards. -/
inductive Advances (s : Scanner) (c : Char) : Step → Prop where
  | fault (hphase : s.mode.phase ≠ .between) (fault : MarkupFault) :
    Advances s c (.error ((s.pushMarkup c).fail fault))
  | goesOn (hphase : s.mode.phase ≠ .between) {next : Scanner} {found : List Event}
    (hmarkup : next.markup = c :: s.markup) : Advances s c (.ok (next, found))
  | begins {next : Scanner} {found : List Event} (hbracket : next.markup.getLast? = some '<') :
    Advances s c (.ok (next, found))
  | ends {next : Scanner} {found : List Event} (hphase : next.mode.phase = .between) :
    Advances s c (.ok (next, found))

/-- As text, a character begins a construct or none is open; it does not matter what was read. -/
theorem advances_stepText (t : Scanner) (c : Char) : s.Advances c (t.stepText c) := by
  unfold stepText
  split
  · next hc => exact .begins (congrArg some hc)
  · exact .ends rfl

theorem advances_reportStartTag (t : Scanner) (tag : OpenTag) (selfClosing : Bool) :
    s.Advances c (t.reportStartTag tag selfClosing) := by
  refine .ends ?_
  dsimp only
  split <;> rfl

/-- The end tag of a raw text element begins with the bracket that was taken for text. -/
theorem Tracks.getLast?_endTagCut (h : s.Tracks input parts) {name : String}
    (hmode : s.mode = .rawText name) (hlocation : s.location = Location.start.advance input)
    (hends : endsInEndTag name (s.text.take (name.length + 2)) = true) (c : Char) :
    (c :: (s.endTagCut name.length).markup).getLast? = some '<' := by
  have hmarkup : (s.endTagCut name.length).markup =
      s.text.take name.length ++ ['/'] ++ ['<'] := by
    rw [← List.reverse_inj, h.endTagCut_source_eq hmode hlocation hends]
    simp
  rw [hmarkup, ← List.cons_append, List.getLast?_concat]

/-- A character in any mode. In raw text there is no fault. -/
theorem Tracks.advances_stepInMode (h : s.Tracks input parts)
    (hlocation : s.location = Location.start.advance input) (c : Char) :
    s.Advances c (s.stepInMode c) := by
  have hreacts := reacts_stepInMode s c
  generalize s.stepInMode c = result at hreacts ⊢
  cases hreacts with
  | text | bracket => exact advances_stepText _ c
  | goesOn hmode => exact .goesOn (Mode.phase_ne_between hmode.phase_eq) rfl
  | fault hphase fault => exact .fault (Mode.phase_ne_between hphase) fault
  | startTag | emptyTag => exact advances_reportStartTag _ _ _
  | commentOpen hmode | comment hmode => exact .goesOn (by simp [hmode, Mode.phase]) rfl
  | endTag | declaration | commentEnd | rawEnd => exact .ends rfl
  | rawText hmode => exact .ends (hmode ▸ rfl)
  | rawGap hmode hends => exact .begins (h.getLast?_endTagCut hmode hlocation hends c)

/-! ### Constructs begin with a bracket -/

/-- If a construct is being read, it begins with a bracket. -/
def Bracketed (s : Scanner) : Prop :=
  s.mode.phase ≠ .between → s.markup.getLast? = some '<'

theorem bracketed_start : start.Bracketed := fun hphase => absurd rfl hphase

theorem Advances.bracketed (h : s.Advances c (.ok (next, found))) (hs : s.Bracketed) :
    next.Bracketed := by
  cases h with
  | goesOn hphase hmarkup => exact fun _ => by rw [hmarkup, List.getLast?_cons, hs hphase]; rfl
  | begins hbracket => exact fun _ => hbracket
  | ends hphase => exact fun hne => absurd hphase hne

theorem Tracks.bracketed_step (h : s.Tracks input parts)
    (hlocation : s.location = Location.start.advance input) (hs : s.Bracketed)
    (hstep : s.step c = .ok (next, found)) : next.Bracketed := by
  obtain ⟨middle, hmode, rfl⟩ := exists_of_step hstep
  have hadvances := h.advances_stepInMode hlocation c
  rw [hmode] at hadvances
  exact hadvances.bracketed hs

/-- Constructs begin with a bracket after every text, by induction on its characters. -/
theorem Tracks.bracketed_feed {cs : List Char} (h : s.Tracks input parts)
    (hlocation : s.location = Location.start.advance input) (hs : s.Bracketed)
    (hfeed : s.feed cs = (found, .ok next)) : next.Bracketed := by
  induction cs generalizing s input parts found with
  | nil =>
    obtain ⟨-, hnext⟩ := Prod.mk.inj hfeed
    obtain rfl := Except.ok.inj hnext
    exact hs
  | cons c cs ih =>
    rw [Scanner.feed] at hfeed
    split at hfeed
    · cases hfeed
    · next middle first hstep =>
      obtain ⟨-, hlater⟩ := Prod.mk.inj hfeed
      obtain ⟨more, -, htracks, hmiddle⟩ := h.step hlocation hstep
      exact ih htracks hmiddle (h.bracketed_step hlocation hs hstep) (Prod.ext rfl hlater)

/-- What has been taken, with `more` behind it, from the bracket of the construct on. -/
theorem Tracks.exists_construct (h : s.Tracks seen parts) (hs : s.Bracketed)
    (hphase : s.mode.phase ≠ .between) (more : List Char) :
    ∃ construct, s.markup.reverse ++ more = '<' :: construct ∧
      seen ++ more = parts.flatMap Prod.snd ++ s.text.reverse ++ '<' :: construct ∧
      s.markupStart = Location.start.advance (parts.flatMap Prod.snd ++ s.text.reverse) := by
  obtain ⟨rest, hmarkup⟩ := List.getLast?_eq_some_iff.1 (hs hphase)
  have hconstruct : s.markup.reverse ++ more = '<' :: (rest.reverse ++ more) := by simp [hmarkup]
  refine ⟨_, hconstruct, ?_, h.markupStart_eq hphase⟩
  rw [h.input_eq_of_ne hphase, ← hconstruct]
  simp only [List.append_assoc]

/-! ### Faults -/

theorem Tracks.error_of_step (h : s.Tracks seen parts)
    (hlocation : s.location = Location.start.advance seen) (hstep : s.step c = .error e) :
    s.mode.phase ≠ .between ∧ ∃ fault, e = (s.pushMarkup c).fail fault := by
  have hadvances := h.advances_stepInMode hlocation c
  cases hmode : s.stepInMode c with
  | ok result =>
    rw [step_of_stepInMode hmode] at hstep
    cases hstep
  | error other =>
    rw [Scanner.step, hmode] at hstep
    obtain rfl : other = e := Except.error.inj hstep
    rw [hmode] at hadvances
    cases hadvances with
    | fault hphase fault => exact ⟨hphase, fault, rfl⟩

theorem error_of_finish (h : s.finish = .error e) :
    s.mode.phase ≠ .between ∧ ∃ fault, e = s.fail fault := by
  cases hmode : s.mode <;> simp only [finish, hmode] at h
  case text | rawText | tagOpen => cases h
  all_goals exact ⟨by simp [Mode.phase], _, (Except.error.inj h).symm⟩

/-- Where a fault ends the scan of `input`: the scanner `s` has reported the events so far, and the
fault is found at the end of `seen`. -/
inductive Stops (input : List Char) (e : MarkupError) :
    List Event → Scanner → List Char → Prop where
  /-- The last character of `seen` cannot stand there. -/
  | character {found : List Event} {s : Scanner} {before rest : List Char} {c : Char}
    (hinput : input = before ++ c :: rest) (hfeed : start.feed before = (found, .ok s))
    (hstep : s.step c = .error e) : Stops input e found s (before ++ [c])
  /-- The text cannot end where it ends. -/
  | finish {found : List Event} {s : Scanner} (hfeed : start.feed input = (found, .ok s))
    (hfinish : s.finish = .error e) : Stops input e found s input

/-- A text that is not taken has a first character that is not. -/
theorem exists_of_feed_error (h : s.feed input = (found, .error e)) :
    ∃ before c rest last, input = before ++ c :: rest ∧ s.feed before = (found, .ok last) ∧
      last.step c = .error e := by
  induction input generalizing s found with
  | nil => cases h
  | cons c input ih =>
    rw [feed] at h
    split at h
    · next other hstep =>
      obtain ⟨rfl, herror⟩ := Prod.mk.inj h
      obtain rfl := Except.error.inj herror
      exact ⟨[], c, input, s, rfl, rfl, hstep⟩
    -- A later character is the one.
    · next next first hstep =>
      obtain ⟨hfirst, herror⟩ := Prod.mk.inj h
      obtain ⟨before, d, rest, last, rfl, hfeed, hlast⟩ := ih (Prod.ext rfl herror)
      refine ⟨c :: before, d, rest, last, rfl, ?_, hlast⟩
      simp only [feed, hstep, hfeed]
      rw [← hfirst]

theorem stops_of_scan {pieces : List (List Char)} (h : scan pieces = .error e) :
    ∃ s seen, Stops pieces.flatten e (start.feedAll pieces).1 s seen := by
  rw [scan] at h
  rw [feedAll_eq_feed] at h ⊢
  rcases hfeed : start.feed pieces.flatten with ⟨found, result⟩
  rw [hfeed] at h
  cases result with
  | error other =>
    obtain rfl : other = e := Except.error.inj h
    obtain ⟨before, c, rest, s, hinput, hbefore, hstep⟩ := exists_of_feed_error hfeed
    exact ⟨s, before ++ [c], .character hinput hbefore hstep⟩
  | ok s =>
    refine ⟨s, pieces.flatten, .finish hfeed ?_⟩
    dsimp only at h
    split at h
    · next hfinish => rw [hfinish, Except.error.inj h]
    · cases h

/-- **Faults point at the construct that is open.** If the scan of a text fails, in whichever pieces
the text is taken, then the fault is at a bracket of the text. The source that is shown begins with
this bracket, and goes through the character at fault, or to the end of the text if it cannot end
there. In front of the bracket there is just what has been reported, as the slices of the events,
and behind that the text that the scanner still holds. -/
theorem error_of_scan {pieces : List (List Char)} (h : scan pieces = .error e) :
    ∃ s seen parts construct, Stops pieces.flatten e (start.feedAll pieces).1 s seen ∧
      seen = parts.flatMap Prod.snd ++ s.text.reverse ++ '<' :: construct ∧
      e.location = Location.start.advance (parts.flatMap Prod.snd ++ s.text.reverse) ∧
      e.excerpt = excerpt ('<' :: construct) ∧
      parts.map Prod.fst = (start.feedAll pieces).1 ∧ Segmented .start parts := by
  obtain ⟨s, seen, hstops⟩ := stops_of_scan h
  refine ⟨s, seen, ?_⟩
  generalize (start.feedAll pieces).1 = found at hstops ⊢
  cases hstops with
  | character hinput hfeed hstep =>
    obtain ⟨parts, hparts, htracks, hlocation⟩ := Tracks.start.feed rfl hfeed
    have hbracketed := Tracks.start.bracketed_feed rfl bracketed_start hfeed
    obtain ⟨hphase, fault, rfl⟩ := htracks.error_of_step hlocation hstep
    obtain ⟨construct, hconstruct, hseen, hstart⟩ :=
      htracks.exists_construct hbracketed hphase [_]
    refine ⟨parts, construct, .character hinput hfeed hstep, hseen, hstart, ?_, hparts,
      htracks.segmented⟩
    rw [← hconstruct]
    exact congrArg excerpt List.reverse_cons
  | finish hfeed hfinish =>
    obtain ⟨parts, hparts, htracks, hlocation⟩ := Tracks.start.feed rfl hfeed
    have hbracketed := Tracks.start.bracketed_feed rfl bracketed_start hfeed
    obtain ⟨hphase, fault, rfl⟩ := error_of_finish hfinish
    obtain ⟨construct, hconstruct, hseen, hstart⟩ := htracks.exists_construct hbracketed hphase []
    rw [List.append_nil] at hconstruct hseen
    refine ⟨parts, construct, .finish hfeed hfinish, hseen, hstart, ?_, hparts,
      htracks.segmented⟩
    rw [← hconstruct]
    rfl

/-- A raw text element with a malformed end tag, in pieces that cut the end tag. -/
def brokenPieces : List (List Char) :=
  ["x<".toList, "1<style>\ny</sty".toList, "LE\n /".toList, "z".toList]

/-- A comment that is not ended, in pieces that cut its opening. -/
def openPieces : List (List Char) :=
  ["x<!".toList, "-- <p> -".toList, "->y<!--\n-->z<!".toList, "--".toList]

/-- The fault in the end tag, at the character behind its name. -/
def brokenEndTag : MarkupError :=
  ⟨⟨2, 2⟩, "</styLE\\n /", .malformedEndTag⟩

/-- The fault in the comment, at the end of the text. -/
def openComment : MarkupError :=
  ⟨⟨2, 5⟩, "<!--", .unterminatedComment⟩

theorem error_of_scan_pieces :
    scan brokenPieces = .error brokenEndTag ∧
      (∃ s seen before construct,
        Stops brokenPieces.flatten brokenEndTag (start.feedAll brokenPieces).1 s seen ∧
        seen = before ++ s.text.reverse ++ '<' :: construct ∧
        brokenEndTag.location = Location.start.advance (before ++ s.text.reverse) ∧
        brokenEndTag.excerpt = excerpt ('<' :: construct)) ∧
      scan openPieces = .error openComment ∧
      ∃ s seen before construct,
        Stops openPieces.flatten openComment (start.feedAll openPieces).1 s seen ∧
        seen = before ++ s.text.reverse ++ '<' :: construct ∧
        openComment.location = Location.start.advance (before ++ s.text.reverse) ∧
        openComment.excerpt = excerpt ('<' :: construct) := by
  have hbroken : scan brokenPieces = .error brokenEndTag := by decide +kernel
  have hopen : scan openPieces = .error openComment := by decide +kernel
  obtain ⟨s, seen, parts, construct, hstops, hseen, hlocation, hexcerpt, -⟩ :=
    error_of_scan hbroken
  obtain ⟨t, taken, slices, comment, hends, htaken, hstart, hshown, -⟩ := error_of_scan hopen
  exact ⟨hbroken, ⟨s, seen, _, construct, hstops, hseen, hlocation, hexcerpt⟩, hopen, t, taken, _,
    comment, hends, htaken, hstart, hshown⟩

end Scanner

end Stencil.Markup
