import Stencil.Proofs.Spelling
import Stencil.Proofs.Transitions

/-!
# What a scanner has taken

The characters that a scanner has taken are the slices of the events that it has reported, then the
text that it has not reported, then the construct that it is reading. A step keeps this if it adds
to the text, adds to the construct, makes text of the construct, or reports.

## Main definitions

* `Scanner.Tracks`: what a scanner has taken
* `Scanner.Keeps`: what it has taken after a step

## Main results

* `Scanner.Tracks.pushText`, `Scanner.Tracks.pushMarkup`: a character of text or of a construct
* `Scanner.Tracks.markupToText`: a construct that is text after all
* `Scanner.Tracks.keeps_report`: a construct that ends
-/

namespace Stencil.Markup

namespace Scanner

variable {s next : Scanner} {input source : List Char} {parts more : List (Event × List Char)}
  {events : List Event} {mode : Mode} {c : Char}

/-! ### What a scanner has taken -/

/-- The source of the construct being read. -/
def construct (s : Scanner) : List Char :=
  if s.mode.phase = .between then [] else s.markup.reverse

/-- The text not yet reported, with its event. -/
def textParts (s : Scanner) : List (Event × List Char) :=
  if s.text.isEmpty then []
  else [(.text (String.ofList s.text.reverse) s.textStart, s.text.reverse)]

theorem map_fst_textParts (s : Scanner) : s.textParts.map Prod.fst = s.textEvents := by
  unfold textParts textEvents
  split <;> rfl

theorem flatMap_snd_textParts (s : Scanner) : s.textParts.flatMap Prod.snd = s.text.reverse := by
  unfold textParts
  split
  · next h => rw [List.isEmpty_iff.1 h]; rfl
  · exact List.append_nil _

/-- The scanner has taken `input`: the slices of what it has reported, the text that it has not
reported, and what it has read of a construct. -/
structure Tracks (s : Scanner) (input : List Char) (parts : List (Event × List Char)) : Prop where
  segmented : Segmented .start parts
  input_eq : input = parts.flatMap Prod.snd ++ (s.text.reverse ++ s.construct)
  textStart_eq : s.text ≠ [] → s.textStart = Location.start.advance (parts.flatMap Prod.snd)
  markupStart_eq : s.mode.phase ≠ .between →
    s.markupStart = Location.start.advance (parts.flatMap Prod.snd ++ s.text.reverse)
  spelled : s.mode.Spelled s.markupStart s.markup.reverse
  /-- Text that is still to come, or to be reported, does not follow text. -/
  apart : s.mode.phase ≠ .comment → ∀ last ∈ parts.getLast?, last.1.isText = false
  text_eq_nil : s.mode.phase = .comment → s.text = []

/-- After the step the scanner has taken `input`, and has reported more events. -/
def Keeps (input : List Char) (parts : List (Event × List Char)) (step : Step) : Prop :=
  ∀ next events, step = .ok (next, events) →
    ∃ more, more.map Prod.fst = events ∧ next.Tracks input (parts ++ more)

theorem keeps_error (e : MarkupError) : Keeps input parts (.error e) := by
  intro next events hstep
  cases hstep

theorem keeps_ok (hevents : more.map Prod.fst = events) (h : next.Tracks input (parts ++ more)) :
    Keeps input parts (.ok (next, events)) := by
  intro next events hstep
  obtain ⟨rfl, rfl⟩ := Prod.mk.inj (Except.ok.inj hstep)
  exact ⟨more, hevents, h⟩

theorem keeps_silent (h : next.Tracks input parts) : Keeps input parts (.ok (next, [])) :=
  keeps_ok rfl ((List.append_nil parts).symm ▸ h)

theorem keeps_ite {p : Prop} [Decidable p] {first second : Step}
    (hfirst : p → Keeps input parts first) (hsecond : ¬ p → Keeps input parts second) :
    Keeps input parts (if p then first else second) := by
  split
  · next h => exact hfirst h
  · next h => exact hsecond h

namespace Tracks

theorem input_eq_of_between (h : s.Tracks input parts) (hphase : s.mode.phase = .between) :
    input = parts.flatMap Prod.snd ++ s.text.reverse := by
  rw [h.input_eq, construct, if_pos hphase, List.append_nil]

theorem input_eq_of_ne (h : s.Tracks input parts) (hphase : s.mode.phase ≠ .between) :
    input = parts.flatMap Prod.snd ++ (s.text.reverse ++ s.markup.reverse) := by
  rw [h.input_eq, construct, if_neg hphase]

/-- Between constructs and without text, all that has been taken has been reported. -/
theorem of_between (hsegmented : Segmented .start parts) (hphase : s.mode.phase = .between)
    (htext : s.text = []) (hspelled : ∀ here source, s.mode.Spelled here source)
    (hlast : ∀ last ∈ parts.getLast?, last.1.isText = false) :
    s.Tracks (parts.flatMap Prod.snd) parts where
  segmented := hsegmented
  input_eq := by rw [htext, construct, if_pos hphase, List.reverse_nil, List.append_nil,
    List.append_nil]
  textStart_eq := fun hne => absurd htext hne
  markupStart_eq := fun hne => absurd hphase hne
  spelled := hspelled _ _
  apart := fun _ => hlast
  text_eq_nil := fun _ => htext

/-- Where the next character stands, seen from the beginning of the construct. -/
theorem location_eq (h : s.Tracks input parts) (hphase : s.mode.phase ≠ .between)
    (hlocation : s.location = Location.start.advance input) :
    s.location = s.markupStart.advance s.markup.reverse := by
  rw [hlocation, h.input_eq_of_ne hphase, h.markupStart_eq hphase, ← Location.advance_append,
    List.append_assoc]

/-- The text that is reported stands where it was found. -/
theorem segmented_textParts (h : s.Tracks input parts) (hphase : s.mode.phase ≠ .comment) :
    Segmented .start (parts ++ s.textParts) := by
  unfold textParts
  split
  · rw [List.append_nil]
    exact h.segmented
  · next htext =>
    have hne : s.text ≠ [] := fun hnil => htext (List.isEmpty_iff.2 hnil)
    refine h.segmented.concat ⟨h.textStart_eq hne, ?_, ?_⟩ fun _ => h.apart hphase
    · rw [String.toList_ofList]
    · exact fun hnil => hne (List.reverse_eq_nil_iff.1 hnil)

/-! ### Text -/

theorem pushText (h : s.Tracks input parts) (hphase : s.mode.phase = .between)
    (hlocation : s.location = Location.start.advance input) (c : Char) :
    (s.pushText c).Tracks (input ++ [c]) parts where
  segmented := h.segmented
  input_eq := by
    have hconstruct : (s.pushText c).construct = [] := if_pos hphase
    rw [hconstruct, h.input_eq_of_between hphase]
    simp [Scanner.pushText]
  textStart_eq := by
    intro _
    by_cases hnil : s.text = []
    -- The first character of a text stands where the slices so far end.
    · have hinput := h.input_eq_of_between hphase
      simp only [Scanner.pushText, hnil, List.isEmpty_nil, if_true]
      rw [hlocation, hinput, hnil, List.reverse_nil, List.append_nil]
    · have hempty : s.text.isEmpty = false := by simpa using hnil
      simp only [Scanner.pushText, hempty]
      exact h.textStart_eq hnil
  markupStart_eq := fun hmarkup => absurd hphase hmarkup
  spelled := h.spelled
  apart := h.apart
  text_eq_nil := fun hcomment => absurd hcomment (Mode.phase_ne_comment_of_between hphase)

/-- A construct that is text joins the text in front of it. -/
theorem markupToText (h : s.Tracks input parts) (hphase : s.mode.phase = .markup) :
    s.markupToText.Tracks input parts where
  segmented := h.segmented
  input_eq := by
    have hconstruct : s.markupToText.construct = [] := rfl
    rw [hconstruct, h.input_eq_of_ne (Mode.phase_ne_between hphase)]
    simp [Scanner.markupToText]
  textStart_eq := by
    intro _
    by_cases hnil : s.text = []
    -- Without text in front of it, the construct begins where the slices so far end.
    · have hstart := h.markupStart_eq (Mode.phase_ne_between hphase)
      simp only [Scanner.markupToText, hnil, List.isEmpty_nil, if_true]
      rw [hstart, hnil, List.reverse_nil, List.append_nil]
    · have hempty : s.text.isEmpty = false := by simpa using hnil
      simp only [Scanner.markupToText, hempty]
      exact h.textStart_eq hnil
  markupStart_eq := fun hmarkup => absurd rfl hmarkup
  spelled := trivial
  apart := fun _ => h.apart (Mode.phase_ne_comment hphase)
  text_eq_nil := fun hcomment => by cases hcomment

theorem keeps_stepText (h : s.Tracks input parts) (hmode : s.mode = .text)
    (hlocation : s.location = Location.start.advance input) (c : Char) :
    Keeps (input ++ [c]) parts (s.stepText c) := by
  have hphase : s.mode.phase = .between := by rw [hmode]; rfl
  have hinput := h.input_eq_of_between hphase
  refine keeps_ite (fun hc => keeps_silent ?_) fun hc => keeps_silent ?_
  · exact {
      segmented := h.segmented
      input_eq := by rw [hinput, List.append_assoc]; rfl
      textStart_eq := h.textStart_eq
      markupStart_eq := fun _ => by rw [← hinput, ← hlocation]
      spelled := by rw [hc]; rfl
      apart := fun _ => h.apart (Mode.phase_ne_comment_of_between hphase)
      text_eq_nil := fun hcomment => by cases hcomment }
  · have heq : { s.pushText c with mode := .text } = s.pushText c := by
      rw [← hmode]
      rfl
    rw [heq]
    exact h.pushText hphase hlocation c

/-! ### Constructs -/

/-- The construct goes on with the character. -/
theorem pushMarkup (h : s.Tracks input parts) (hphase : s.mode.phase ≠ .between)
    (hmode : mode.phase = s.mode.phase)
    (hspelled : mode.Spelled s.markupStart (s.markup.reverse ++ [c])) :
    { s.pushMarkup c with mode }.Tracks (input ++ [c]) parts where
  segmented := h.segmented
  input_eq := by
    rw [h.input_eq_of_ne hphase, construct, if_neg (hmode ▸ hphase)]
    simp [Scanner.pushMarkup]
  textStart_eq := h.textStart_eq
  markupStart_eq := fun _ => h.markupStart_eq hphase
  spelled := by simpa [Scanner.pushMarkup] using hspelled
  apart := fun hcomment => h.apart (hmode ▸ hcomment)
  text_eq_nil := fun hcomment => h.text_eq_nil (hmode ▸ hcomment)

section Markup

variable (h : s.Tracks input parts) (hphase : s.mode.phase = .markup)

include h hphase

theorem keeps_into (hmode : mode.phase = .markup)
    (hspelled : mode.Spelled s.markupStart (s.markup.reverse ++ [c])) :
    Keeps (input ++ [c]) parts ((s.pushMarkup c).into mode) :=
  keeps_silent (h.pushMarkup (Mode.phase_ne_between hphase) (hmode.trans hphase.symm) hspelled)

/-- The construct ends with the character, and is reported after the text in front of it. -/
theorem keeps_report {event : Event} (hmode : mode.phase = .between)
    (hspelled : ∀ here source, mode.Spelled here source)
    (hevent : event.Spelled s.markupStart (s.markup.reverse ++ [c]))
    (htext : event.isText = false) :
    Keeps (input ++ [c]) parts ((s.pushMarkup c).report mode event) := by
  have hevents : (s.textParts ++ [(event, s.markup.reverse ++ [c])]).map Prod.fst =
      s.textEvents ++ [event] := by
    rw [List.map_append, map_fst_textParts]
    rfl
  have hsource : (parts ++ s.textParts).flatMap Prod.snd =
      parts.flatMap Prod.snd ++ s.text.reverse := by
    rw [List.flatMap_append, flatMap_snd_textParts]
  have hinput : input ++ [c] = (parts ++ (s.textParts ++
      [(event, s.markup.reverse ++ [c])])).flatMap Prod.snd := by
    rw [h.input_eq_of_ne (Mode.phase_ne_between hphase), ← List.append_assoc parts,
      List.flatMap_append, hsource]
    simp
  -- First the text is reported, then the construct behind it.
  have hsegmented := (h.segmented_textParts (Mode.phase_ne_comment hphase)).concat_event
    (by rwa [hsource, ← h.markupStart_eq (Mode.phase_ne_between hphase)]) htext
  rw [List.append_assoc] at hsegmented
  rw [hinput]
  exact keeps_ok hevents (of_between hsegmented.1 hmode rfl hspelled hsegmented.2)

theorem keeps_reportStartTag {tag : OpenTag} {selfClosing : Bool}
    (htag : tag.Spelled s.markupStart source)
    (hsource : s.markup.reverse ++ [c] = source ++ if selfClosing then ['/', '>'] else ['>']) :
    Keeps (input ++ [c]) parts ((s.pushMarkup c).reportStartTag tag selfClosing) := by
  obtain ⟨body, rfl, hbody⟩ := htag
  refine h.keeps_report hphase ?_ (fun here source => ?_) ⟨rfl, body, hbody, hsource⟩ rfl
  · split <;> rfl
  · split
    · next hraw =>
      have hlower : (Text.lowerAscii tag.name).toList = tag.name.toList.map Char.toLower := by
        simp [Text.lowerAscii]
      rw [Bool.and_eq_true] at hraw
      rw [Mode.Spelled, hlower]
      rcases map_toLower_of_isRawTextElement hraw.2 with hname | hname <;> rw [hname] <;> decide
    · trivial

theorem keeps_reportEndTag {name : String} {gap : List Char} (hgap : IsGap gap)
    (hsource : s.markup.reverse = '<' :: '/' :: (name.toList ++ gap)) (hc : c = '>') :
    Keeps (input ++ [c]) parts ((s.pushMarkup c).reportEndTag name) := by
  refine h.keeps_report hphase rfl (fun _ _ => trivial) ⟨rfl, gap, hgap, ?_⟩ rfl
  rw [hsource, hc]

end Markup

end Tracks

end Scanner

end Stencil.Markup
