import Stencil.Proofs.Tracking

/-!
# Segments of the source

The slices of the events that a scanner reports are the source. What the scanner has taken is
followed through the modes. Half of a construct can turn out to be text, and the end tag of a raw
text element is cut off the text it was taken for.

## Main results

* `Scanner.Tracks.keeps_stepInMode`: what has been taken, after one more character
* `Scanner.Tracks.feed`: after several characters
* `Scanner.exists_segmented_of_feed`: the source is the slices of its events
-/

namespace Stencil.Markup

/-! ### How a construct goes on -/

namespace Mode

variable {mode mode' : Mode} {tag : OpenTag} {attr : OpenAttribute} {here : Location}
  {source : List Char} {c : Char}

theorem Completes.spelled (h : mode.Completes tag) (hsource : mode.Spelled here source) :
    tag.Spelled here source := by
  cases h with
  | tagName name =>
    obtain rfl : source = '<' :: name.reverse := hsource
    refine ⟨[], ?_, .nil⟩
    rw [String.toList_ofList, List.append_nil]
  | beforeAttribute => exact hsource
  | attributeName => exact hsource.close_none (List.forall_mem_nil _)
  | afterAttributeName =>
    obtain ⟨blanks, hblanks, hup⟩ := hsource
    exact hup.close_none hblanks
  | beforeValue | bareValue =>
    obtain ⟨sign, hsign, hup⟩ := hsource
    exact hup.close ⟨sign, hsign, by simp [OpenAttribute.close]⟩
  | selfClosing =>
    obtain ⟨before, rfl, htag⟩ := hsource
    exact htag.gap (by simp [IsGap])

theorem Names.exists_blanks (h : mode.Names tag attr) (hsource : mode.Spelled here source) :
    ∃ blanks, (∀ d ∈ blanks, Text.isBlank d = true) ∧
      tag.SpelledUpTo here source attr blanks := by
  cases h with
  | attributeName => exact ⟨[], List.forall_mem_nil _, hsource⟩
  | afterAttributeName => exact hsource

theorem Closes.exists_gap {name : String} (h : mode.Closes name)
    (hsource : mode.Spelled here source) :
    ∃ gap, IsGap gap ∧ source = '<' :: '/' :: (name.toList ++ gap) := by
  cases h with
  | endTagName name =>
    obtain rfl : source = '<' :: '/' :: name.reverse := hsource
    exact ⟨[], List.forall_mem_nil _, by simp⟩
  | afterEndTagName => exact hsource

/-- The character is one more of what the mode has read. -/
theorem Continues.spelled (h : mode.Continues c (here.advance source) mode')
    (hsource : mode.Spelled here source) : mode'.Spelled here (source ++ [c]) := by
  cases h with
  | mark hc | dash hc | close hc =>
    rw [hsource, hc]
    rfl
  | tagOpen | endTagOpen =>
    rw [hsource]
    rfl
  | instruction | declarationOpen | declaration => trivial
  | tagName | endTagName =>
    rw [hsource]
    simp [Mode.Spelled]
  | blank hmode hc => exact (hmode.spelled hsource).gap (by simp [IsGap, hc])
  | slash hmode hc => exact ⟨source, hc ▸ rfl, hmode.spelled hsource⟩
  | begins hmode => exact ⟨source, rfl, hmode.spelled hsource, rfl⟩
  | attributeName =>
    obtain ⟨before, rfl, htag, hlocation⟩ := hsource
    exact ⟨before, by simp, htag, hlocation⟩
  | afterAttributeName hmode hc =>
    obtain ⟨blanks, hblanks, hup⟩ := hmode.exists_blanks hsource
    refine ⟨blanks ++ [c], ?_, hup.concat c⟩
    simpa [or_imp, forall_and, hc] using hblanks
  | equals hmode hc =>
    obtain ⟨blanks, hblanks, hup⟩ := hmode.exists_blanks hsource
    exact ⟨blanks ++ [c], ⟨blanks, [], by rw [hc], by simpa using hblanks⟩, hup.concat c⟩
  | beforeValue hc =>
    obtain ⟨sign, ⟨before, after, rfl, hblanks⟩, hup⟩ := hsource
    refine ⟨_, ⟨before, after ++ [c], by simp, fun d hd => ?_⟩, hup.concat c⟩
    rw [← List.append_assoc, List.mem_append, List.mem_singleton] at hd
    obtain hd | rfl := hd
    · exact hblanks d hd
    · exact hc
  | quote =>
    obtain ⟨sign, hsign, hup⟩ := hsource
    exact ⟨sign, hsign, List.not_mem_nil, hup.concat c⟩
  | quotedValue hc =>
    obtain ⟨sign, hsign, hvalue, hup⟩ := hsource
    exact ⟨sign, hsign, by simp [hc.symm, hvalue], by simpa using hup.concat c⟩
  | unquote =>
    obtain ⟨sign, hsign, hvalue, hup⟩ := hsource
    refine (hup.concat c).close ⟨sign, hsign, by simpa using hvalue, ?_⟩
    simp [OpenAttribute.close]
  | bare | bareValue =>
    obtain ⟨sign, hsign, hup⟩ := hsource
    exact ⟨sign, hsign, by simpa using hup.concat c⟩
  | afterEndTagName hmode hc =>
    obtain ⟨gap, hgap, rfl⟩ := hmode.exists_gap hsource
    exact ⟨gap ++ [c], List.forall_mem_append.2 ⟨hgap, by simp [hc]⟩, by simp⟩

end Mode

namespace Scanner

variable {s next : Scanner} {input : List Char} {parts : List (Event × List Char)}
  {events : List Event} {c : Char}

namespace Tracks

/-! ### Declarations and comments -/

/-- A declaration is text when it ends. -/
theorem keeps_declarationEnd (h : s.Tracks input parts) (hphase : s.mode.phase = .markup)
    (c : Char) : Keeps (input ++ [c]) parts (.ok ((s.pushMarkup c).markupToText, [])) := by
  have hpushed : { s.pushMarkup c with mode := .declaration }.Tracks (input ++ [c]) parts :=
    h.pushMarkup (Mode.phase_ne_between hphase) hphase.symm trivial
  exact keeps_silent (hpushed.markupToText rfl)

/-- When a comment begins, the text in front of it is reported. -/
theorem keeps_commentStart (h : s.Tracks input parts) (hmode : s.mode = .declarationOpen true)
    (hc : c = '-') :
    Keeps (input ++ [c]) parts
      (.ok ({ s.pushMarkup c with mode := .comment [], text := [] },
        (s.pushMarkup c).textEvents)) := by
  have hphase : s.mode.phase = .markup := by rw [hmode]; rfl
  have hsource : s.markup.reverse ++ [c] = "<!--".toList := by
    have hspelled := h.spelled
    rw [hmode] at hspelled
    rw [hspelled, hc]
    rfl
  refine keeps_ok (map_fst_textParts s) {
    segmented := h.segmented_textParts (Mode.phase_ne_comment hphase)
    input_eq := ?_
    textStart_eq := fun hne => absurd rfl hne
    markupStart_eq := fun _ => ?_
    spelled := ?_
    apart := fun hne => absurd rfl hne
    text_eq_nil := fun _ => rfl }
  · have hconstruct : { s.pushMarkup c with mode := .comment [], text := [] }.construct =
        s.markup.reverse ++ [c] := List.reverse_cons
    rw [hconstruct, List.flatMap_append, flatMap_snd_textParts,
      h.input_eq_of_ne (Mode.phase_ne_between hphase)]
    simp
  · rw [List.flatMap_append, flatMap_snd_textParts, List.reverse_nil, List.append_nil]
    exact h.markupStart_eq (Mode.phase_ne_between hphase)
  · exact List.reverse_cons.trans hsource

section Comment

variable (h : s.Tracks input parts) {body : List Char} (hmode : s.mode = .comment body)

include h hmode

theorem comment_source_eq :
    s.mode.phase = .comment ∧ s.markup.reverse = "<!--".toList ++ body.reverse := by
  have hspelled := h.spelled
  rw [hmode] at hspelled
  exact ⟨hmode ▸ rfl, hspelled⟩

theorem keeps_comment (c : Char) :
    Keeps (input ++ [c]) parts ((s.pushMarkup c).into (.comment (c :: body))) := by
  obtain ⟨hphase, hsource⟩ := h.comment_source_eq hmode
  refine keeps_silent (h.pushMarkup (by rw [hphase]; exact nofun) hphase.symm ?_)
  simp [Mode.Spelled, hsource]

/-- The text in front of the comment was reported when the comment began. -/
theorem keeps_commentEnd {text : List Char} (hbody : body = '-' :: '-' :: text) :
    Keeps (input ++ ['>']) parts (.ok ({ s.pushMarkup '>' with mode := .text },
      [.comment (String.ofList text.reverse) s.markupStart])) := by
  obtain ⟨hphase, hsource⟩ := h.comment_source_eq hmode
  have hbetween : s.mode.phase ≠ .between := by rw [hphase]; exact nofun
  have hnil := h.text_eq_nil hphase
  have hinput := h.input_eq_of_ne hbetween
  have hstart := h.markupStart_eq hbetween
  rw [hnil, List.reverse_nil] at hinput hstart
  rw [List.append_nil] at hstart
  have hevent : (Event.comment (String.ofList text.reverse) s.markupStart).Spelled
      (Location.start.advance (parts.flatMap Prod.snd)) (s.markup.reverse ++ ['>']) :=
    ⟨hstart, by simp [hsource, hbody]⟩
  have hsegmented := h.segmented.concat_event hevent rfl
  have hall : input ++ ['>'] =
      (parts ++ [(Event.comment (String.ofList text.reverse) s.markupStart,
        s.markup.reverse ++ ['>'])]).flatMap Prod.snd := by
    rw [hinput]
    simp
  rw [hall]
  exact keeps_ok rfl (of_between hsegmented.1 rfl hnil (fun _ _ => trivial) hsegmented.2)

end Comment

end Tracks

/-! ### Raw text -/

/-- Only letters change when they are put into lower case. -/
theorem eq_of_toLower_eq {d : Char} (h : c.toLower = d) (hd : d.val < 'a'.val) : c = d := by
  unfold Char.toLower at h
  split at h
  · next hupper =>
    -- A letter in lower case is not below `a`.
    subst h
    have hlow : 65 ≤ c.val.toNat := UInt32.le_iff_toNat_le.1 hupper.1
    have hhigh : c.val.toNat ≤ 90 := UInt32.le_iff_toNat_le.1 hupper.2
    have hlt : (c.val + ('a'.val - 'A'.val)).toNat < 97 := UInt32.lt_iff_toNat_lt.1 hd
    have hdiff : ('a'.val - 'A'.val).toNat = 32 := by decide
    rw [UInt32.toNat_add, hdiff] at hlt
    omega
  · exact h

/-- What is taken for text of an end tag is `</` and a name on one line. -/
theorem exists_of_endsInEndTag {name : String} {text : List Char} (hname : '\n' ∉ name.toList)
    (h : endsInEndTag name (text.take (name.length + 2)) = true) :
    text.take (name.length + 2) = text.take name.length ++ ['/', '<'] ∧
      '\n' ∉ text.take name.length ∧ (text.take name.length).length = name.length := by
  have hmap : name.toList.reverse ++ ['/', '<'] =
      (text.take (name.length + 2)).map Char.toLower := by
    rw [endsInEndTag, List.isPrefixOf_iff_prefix] at h
    refine h.eq_of_length_le ?_
    rw [List.length_map, List.length_append, List.length_reverse, String.length_toList]
    exact List.length_take_le _ _
  obtain ⟨written, mark, htake, hwritten, hmark⟩ := List.map_eq_append_iff.1 hmap.symm
  obtain ⟨slash, rest, rfl, hslash, hrest⟩ := List.map_eq_cons_iff.1 hmark
  obtain ⟨less, rest, rfl, hless, hnil⟩ := List.map_eq_cons_iff.1 hrest
  obtain rfl := List.map_eq_nil_iff.1 hnil
  obtain rfl := eq_of_toLower_eq hslash (by decide)
  obtain rfl := eq_of_toLower_eq hless (by decide)
  have hlength : written.length = name.length := by
    simpa [String.length_toList] using congrArg List.length hwritten
  have heq : text.take name.length = written := by
    rw [← List.take_append_drop (name.length + 2) text, htake]
    simp [← hlength]
  rw [heq]
  refine ⟨htake, fun hline => hname ?_, hlength⟩
  rw [← List.mem_reverse, ← hwritten]
  exact List.mem_map_of_mem hline

namespace Tracks

theorem endTagCut (h : s.Tracks input parts) {name : String} (hmode : s.mode = .rawText name)
    (hlocation : s.location = Location.start.advance input)
    (hends : endsInEndTag name (s.text.take (name.length + 2)) = true) :
    (s.endTagCut name.length).Tracks input parts := by
  have hphase : s.mode.phase = .between := by rw [hmode]; rfl
  have hname : '\n' ∉ name.toList := by
    have hspelled := h.spelled
    rwa [hmode] at hspelled
  obtain ⟨htake, hline, hlength⟩ := exists_of_endsInEndTag hname hends
  have hinput : input = parts.flatMap Prod.snd ++
      ((s.text.drop (name.length + 2)).reverse ++ (s.text.take (name.length + 2)).reverse) := by
    rw [h.input_eq_of_between hphase, ← List.reverse_append, List.take_append_drop]
  have hsource : (s.text.take (name.length + 2)).reverse =
      '<' :: '/' :: (s.text.take name.length).reverse := by
    rw [htake, List.reverse_append]
    rfl
  have hstart : (s.endTagCut name.length).markupStart = Location.start.advance
      (parts.flatMap Prod.snd ++ (s.text.drop (name.length + 2)).reverse) := by
    -- There is no line feed in the end tag, so its columns can be counted back.
    have hwidth : ((s.text.take (name.length + 2)).reverse).length = name.length + 2 := by
      rw [hsource, List.length_cons, List.length_cons, List.length_reverse, hlength]
    have hfeed : '\n' ∉ (s.text.take (name.length + 2)).reverse := by
      rw [hsource]
      simpa using hline
    rw [hinput, ← List.append_assoc, Location.advance_append, Location.advance_eq_shift _ _ hfeed,
      hwidth] at hlocation
    simp only [Scanner.endTagCut, hlocation, Location.shift, Nat.add_sub_cancel]
  exact {
    segmented := h.segmented
    input_eq := hinput
    textStart_eq := fun hne => h.textStart_eq fun hnil => hne (by simp [Scanner.endTagCut, hnil])
    markupStart_eq := fun _ => hstart
    spelled := hsource
    apart := fun _ => h.apart (Mode.phase_ne_comment_of_between hphase)
    text_eq_nil := fun hcomment => by cases hcomment }

theorem endTagCut_source_eq (h : s.Tracks input parts) {name : String}
    (hmode : s.mode = .rawText name) (hlocation : s.location = Location.start.advance input)
    (hends : endsInEndTag name (s.text.take (name.length + 2)) = true) :
    (s.endTagCut name.length).markup.reverse = '<' :: '/' :: (s.text.take name.length).reverse :=
  (h.endTagCut hmode hlocation hends).spelled

/-! ### Steps -/

/-- A character in any mode. -/
theorem keeps_stepInMode (h : s.Tracks input parts)
    (hlocation : s.location = Location.start.advance input) (c : Char) :
    Keeps (input ++ [c]) parts (s.stepInMode c) := by
  have hspelled := h.spelled
  have hreacts := reacts_stepInMode s c
  generalize s.stepInMode c = result at hreacts ⊢
  cases hreacts with
  | text hmode => exact h.keeps_stepText hmode hlocation c
  | bracket hmode => exact (h.markupToText (hmode ▸ rfl)).keeps_stepText rfl hlocation c
  | goesOn hmode =>
    rw [h.location_eq (Mode.phase_ne_between hmode.phase_eq) hlocation] at hmode
    exact h.keeps_into hmode.phase_eq hmode.phase_eq' (hmode.spelled hspelled)
  | fault => exact keeps_error _
  | startTag hmode hc =>
    exact h.keeps_reportStartTag hmode.phase_eq (hmode.spelled hspelled) (hc ▸ rfl)
  | emptyTag hmode hc =>
    rw [hmode] at hspelled
    obtain ⟨before, hsource, htag⟩ := hspelled
    exact h.keeps_reportStartTag (hmode ▸ rfl) htag (by simp [hsource, hc])
  | endTag hmode hc =>
    obtain ⟨gap, hgap, hsource⟩ := hmode.exists_gap hspelled
    exact h.keeps_reportEndTag hmode.phase_eq hgap hsource hc
  | declaration hmode => exact h.keeps_declarationEnd hmode.phase_eq c
  | commentOpen hmode hc => exact h.keeps_commentStart hmode hc
  | comment hmode => exact h.keeps_comment hmode c
  | commentEnd hmode hc =>
    subst hc
    exact h.keeps_commentEnd hmode rfl
  | rawText hmode => exact keeps_silent (h.pushText (hmode ▸ rfl) hlocation c)
  -- From here on it is as if the name of an end tag had been read.
  | rawEnd hmode hends hc =>
    refine (h.endTagCut hmode hlocation hends).keeps_reportEndTag rfl (List.forall_mem_nil _) ?_ hc
    simp [h.endTagCut_source_eq hmode hlocation hends]
  | rawGap hmode hends hc =>
    refine (h.endTagCut hmode hlocation hends).keeps_into rfl rfl ⟨[c], by simpa [IsGap], ?_⟩
    simp [h.endTagCut_source_eq hmode hlocation hends]

/-- What has been taken does not depend on where the next character stands. -/
theorem relocate (h : s.Tracks input parts) (location : Location) :
    { s with location }.Tracks input parts :=
  ⟨h.segmented, h.input_eq, h.textStart_eq, h.markupStart_eq, h.spelled, h.apart, h.text_eq_nil⟩

theorem step (h : s.Tracks input parts) (hlocation : s.location = Location.start.advance input)
    (hstep : s.step c = .ok (next, events)) :
    ∃ more, more.map Prod.fst = events ∧ next.Tracks (input ++ [c]) (parts ++ more) ∧
      next.location = Location.start.advance (input ++ [c]) := by
  obtain ⟨middle, hmode, rfl⟩ := exists_of_step hstep
  obtain ⟨more, hevents, htracks⟩ := h.keeps_stepInMode hlocation c _ _ hmode
  refine ⟨more, hevents, htracks.relocate _, ?_⟩
  rw [Location.advance_append, ← hlocation]
  rfl

/-- What has been taken after several characters, by induction on them. -/
theorem feed {cs : List Char} (h : s.Tracks input parts)
    (hlocation : s.location = Location.start.advance input)
    (hfeed : s.feed cs = (events, .ok next)) :
    ∃ more, more.map Prod.fst = events ∧ next.Tracks (input ++ cs) (parts ++ more) ∧
      next.location = Location.start.advance (input ++ cs) := by
  induction cs generalizing s input parts events with
  | nil =>
    obtain ⟨rfl, hnext⟩ := Prod.mk.inj hfeed
    obtain rfl := Except.ok.inj hnext
    refine ⟨[], rfl, ?_, ?_⟩
    · rwa [List.append_nil, List.append_nil]
    · rwa [List.append_nil]
  | cons c cs ih =>
    rw [Scanner.feed] at hfeed
    split at hfeed
    · cases hfeed
    · next middle first hstep =>
      obtain ⟨hevents, hlater⟩ := Prod.mk.inj hfeed
      obtain ⟨more, hmore, htracks, hmiddle⟩ := h.step hlocation hstep
      obtain ⟨later, hlaterEvents, hnext, hfinish⟩ := ih htracks hmiddle (Prod.ext rfl hlater)
      refine ⟨more ++ later, ?_, ?_, ?_⟩
      · rw [List.map_append, hmore, hlaterEvents, hevents]
      · rwa [List.append_cons, ← List.append_assoc]
      · rwa [List.append_cons]

theorem start : Scanner.start.Tracks [] [] := by
  have hsegmented : Segmented .start [] := trivial
  exact of_between hsegmented rfl rfl (fun _ _ => trivial) nofun

/-- Between constructs, the end reports the text that is left. -/
theorem exists_of_between (h : s.Tracks input parts) (hphase : s.mode.phase = .between) :
    ∃ more, more.map Prod.fst = s.textEvents ∧ Segmented .start (parts ++ more) ∧
      (parts ++ more).flatMap Prod.snd = input := by
  refine ⟨s.textParts, map_fst_textParts s,
    h.segmented_textParts (Mode.phase_ne_comment_of_between hphase), ?_⟩
  rw [List.flatMap_append, flatMap_snd_textParts, h.input_eq_of_between hphase]

/-- At the end of the input, what is left is reported and makes up the rest of it. -/
theorem finish (h : s.Tracks input parts) (hfinish : s.finish = .ok events) :
    ∃ more, events = more.map Prod.fst ++ [.finish s.location] ∧
      Segmented .start (parts ++ more) ∧ (parts ++ more).flatMap Prod.snd = input := by
  have hleft : ∃ t : Scanner, t.Tracks input parts ∧ t.mode.phase = .between ∧
      events = t.textEvents ++ [.finish s.location] := by
    cases hmode : s.mode <;> simp only [Scanner.finish, hmode] at hfinish
    case text | rawText =>
      exact ⟨s, h, by rw [hmode]; rfl, (Except.ok.inj hfinish).symm⟩
    case tagOpen =>
      exact ⟨_, h.markupToText (by rw [hmode]; rfl), rfl, (Except.ok.inj hfinish).symm⟩
    all_goals cases hfinish
  obtain ⟨t, htracks, hphase, rfl⟩ := hleft
  obtain ⟨more, hevents, hsegmented⟩ := htracks.exists_of_between hphase
  exact ⟨more, by rw [hevents], hsegmented⟩

end Tracks

/-- A source that is read to its end is the slices of its events, in their order. Each event is
where the slices before it end, and the last event is at the end of the source. -/
theorem exists_segmented_of_feed {last : List Event} (hfeed : start.feed input = (events, .ok s))
    (hfinish : s.finish = .ok last) :
    ∃ parts, events ++ last = parts.map Prod.fst ++ [.finish (Location.start.advance input)] ∧
      parts.flatMap Prod.snd = input ∧ Segmented .start parts := by
  obtain ⟨parts, rfl, htracks, hlocation⟩ := Tracks.start.feed rfl hfeed
  obtain ⟨more, rfl, hsegmented, hsource⟩ := htracks.finish hfinish
  refine ⟨parts ++ more, ?_, hsource, hsegmented⟩
  rw [hlocation, List.map_append, List.append_assoc]
  rfl

/-- A text with a stray bracket, tags, a comment and a raw text element. -/
def pageSource : List Char :=
  "1<2\n<br a = 'b c'/><!--d--><STYLE>e</Style >".toList

/-- What is reported before the end. -/
def pageEvents : List Event :=
  [.text "1<2\n" ⟨1, 1⟩, .startTag ⟨"br", [⟨"a", some "b c", some '\'', ⟨2, 5⟩⟩], true, ⟨2, 1⟩⟩,
    .comment "d" ⟨2, 16⟩, .startTag ⟨"STYLE", [], false, ⟨2, 24⟩⟩, .text "e" ⟨2, 31⟩,
    .endTag "Style" ⟨2, 32⟩]

theorem exists_segmented_of_feed_page :
    ∃ parts, parts.map Prod.fst = pageEvents ∧ parts.flatMap Prod.snd = pageSource ∧
      Segmented .start parts := by
  have hfeed : start.feed pageSource = (pageEvents,
      .ok ⟨.text, ⟨2, 41⟩, [], ⟨2, 31⟩, "</Style >".toList.reverse, ⟨2, 32⟩⟩) := by decide +kernel
  obtain ⟨parts, hevents, hsource, hsegmented⟩ := exists_segmented_of_feed hfeed rfl
  exact ⟨parts, (List.append_inj' hevents rfl).1.symm, hsource, hsegmented⟩

end Scanner

end Stencil.Markup
