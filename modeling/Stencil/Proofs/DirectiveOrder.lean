import Stencil.Proofs.PermutedWalk
import Stencil.Proofs.Segments

/-!
# The order of directives on an element

If the directives on one element change places, a source that compiles still does, to the same
commands up to locations and a permutation of the names that these directives are given. This holds
if all of them are directives of the language with different priorities, and if no name that the
author writes is one that the compiler makes.

## Main definitions

* `Location.Before`: the order of locations

## Main results

* `Scanner.pairwise_before`: the events of a text stand at different places, one after the other
* `Template.ofText_eq_ok_iff`: a text is read as the tree of its events
* `Compiler.exists_compile_of_reordered`: the order of directives does not matter
-/

namespace Stencil

/-! ### The order of locations -/

namespace Location

/-- The order of the characters in a text. -/
def Before (here there : Location) : Prop :=
  here.line < there.line ∨ here.line = there.line ∧ here.column < there.column

variable {here there other : Location}

theorem Before.trans (h : here.Before there) (h' : there.Before other) : here.Before other := by
  unfold Before at *
  omega

theorem Before.ne (h : here.Before there) : here ≠ there := by
  rintro rfl
  unfold Before at h
  omega

theorem before_next (here : Location) (c : Char) : here.Before (here.next c) := by
  unfold next Before
  split <;> simp

theorem before_advance (here : Location) {cs : List Char} (h : cs ≠ []) :
    here.Before (here.advance cs) := by
  induction cs generalizing here with
  | nil => exact absurd rfl h
  | cons c rest ih =>
    rw [advance_cons]
    cases rest with
    | nil => exact here.before_next c
    | cons d rest => exact (here.before_next c).trans (ih (here.next c) (List.cons_ne_nil d rest))

end Location

namespace Markup

/-! ### Events at different places -/

/-- Where an event stands. -/
def Event.location : Event → Location
  | .text _ here => here
  | .comment _ here => here
  | .startTag tag => tag.location
  | .endTag _ here => here
  | .finish here => here

theorem Event.Spelled.location_eq {here : Location} {slice : List Char} {event : Event}
    (h : event.Spelled here slice) : event.location = here := by
  cases event with
  | finish place => cases h
  | _ => exact h.1

theorem Event.Spelled.ne_nil {here : Location} {slice : List Char} {event : Event}
    (h : event.Spelled here slice) : slice ≠ [] := by
  cases event with
  | text written place => exact h.2.2
  | comment written place =>
    obtain ⟨-, rfl⟩ := h
    exact List.cons_ne_nil _ _
  | startTag tag =>
    obtain ⟨-, body, -, rfl⟩ := h
    exact List.cons_ne_nil _ _
  | endTag name place =>
    obtain ⟨-, gap, -, rfl⟩ := h
    exact List.cons_ne_nil _ _
  | finish place => cases h

/-- Events with slices stand one after the other, and the end stands behind them. -/
theorem Segmented.pairwise_before {here : Location} {parts : List (Event × List Char)}
    (h : Segmented here parts) :
    (parts.map Prod.fst ++ [Event.finish (here.advance (parts.flatMap Prod.snd))]).Pairwise
        (fun event later => event.location.Before later.location) ∧
      ∀ event ∈ parts.map Prod.fst ++ [Event.finish (here.advance (parts.flatMap Prod.snd))],
        event.location = here ∨ here.Before event.location := by
  induction parts generalizing here with
  | nil =>
    refine ⟨List.pairwise_singleton _ _, fun event hevent => .inl ?_⟩
    obtain rfl := List.mem_singleton.1 hevent
    rfl
  | cons part rest ih =>
    obtain ⟨event, slice⟩ := part
    obtain ⟨hspelled, -, hrest⟩ := h
    obtain ⟨hpairwise, hafter⟩ := ih hrest
    rw [List.flatMap_cons, Location.advance_append, List.map_cons, List.cons_append]
    have hslice := here.before_advance hspelled.ne_nil
    -- What follows begins behind the slice of the first event.
    have hlater : ∀ later ∈ rest.map Prod.fst ++
        [Event.finish ((here.advance slice).advance (rest.flatMap Prod.snd))],
        here.Before later.location := by
      intro later hmem
      rcases hafter later hmem with heq | hbefore
      · rw [heq]
        exact hslice
      · exact hslice.trans hbefore
    refine ⟨List.pairwise_cons.2 ⟨fun later hmem => ?_, hpairwise⟩, fun later hmem => ?_⟩
    · rw [hspelled.location_eq]
      exact hlater later hmem
    · rcases List.mem_cons.1 hmem with rfl | hmem
      · exact .inl hspelled.location_eq
      · exact .inr (hlater later hmem)

/-- The events of a text stand at different places, one after the other. -/
theorem Scanner.pairwise_before {text : List Char} {found : List Event}
    (h : events text = .ok found) :
    found.Pairwise fun event later => event.location.Before later.location := by
  obtain ⟨first, s, last, hfeed, hfinish, rfl⟩ := events_eq_ok_iff.1 h
  obtain ⟨parts, rfl, htracks, hlocation⟩ := Tracks.start.feed rfl hfeed
  obtain ⟨more, rfl, hsegmented, hsource⟩ := htracks.finish hfinish
  have hparts : Segmented .start (parts ++ more) := hsegmented
  have hslices : (parts ++ more).flatMap Prod.snd = text := hsource
  have hend : s.location = Location.start.advance text := hlocation
  have hplaces := hparts.pairwise_before.1
  rwa [hslices, ← hend, List.map_append, List.append_assoc] at hplaces

/-- No other event of a text stands where a start tag does. -/
theorem Scanner.location_ne {text : List Char} {before after : List Event} {event : Event}
    (h : events text = .ok (before ++ event :: after)) :
    ∀ other ∈ before ++ after, other.location ≠ event.location := by
  obtain ⟨-, hcons, hbefore⟩ := List.pairwise_append.1 (pairwise_before h)
  intro other hother
  rcases List.mem_append.1 hother with hother | hother
  · exact (hbefore other hother event List.mem_cons_self).ne
  · exact ((List.pairwise_cons.1 hcons).1 other hother).ne.symm

/-! ### The tree of the events -/

/-- A text is read as the tree of its events. -/
theorem Template.ofText_eq_ok_iff {text : List Char} {template : Template} :
    ofText text = .ok template ↔
      ∃ events b, Scanner.events text = .ok events ∧ Builder.start.takeAll events = .ok b ∧
        template = ⟨b.tree⟩ := by
  constructor
  · intro h
    obtain ⟨reader, hreader, hfinish⟩ := exists_of_bind_eq_ok h
    rw [Reader.take] at hreader
    rcases hfeed : Scanner.start.feed text with ⟨first, result⟩
    rw [hfeed] at hreader
    obtain ⟨between, hbetween, hresult⟩ := exists_of_bind_eq_ok hreader
    cases result with
    | error e => cases hresult
    | ok s =>
      obtain rfl := Except.ok.inj hresult
      rw [Reader.finish] at hfinish
      dsimp only at hfinish
      cases hlast : s.finish with
      | error e =>
        rw [hlast] at hfinish
        cases hfinish
      | ok last =>
        rw [hlast] at hfinish
        obtain ⟨b, hb, htree⟩ := exists_of_bind_eq_ok hfinish
        -- The builder takes the events of the characters, and then those of the end.
        refine ⟨first ++ last, b, Scanner.events_eq_ok_iff.2 ⟨first, s, last, hfeed, hlast, rfl⟩,
          ?_, (Except.ok.inj htree).symm⟩
        rw [Builder.takeAll_append, hbetween]
        exact hb
  · rintro ⟨events, b, hevents, hb, rfl⟩
    obtain ⟨first, s, last, hfeed, hlast, rfl⟩ := Scanner.events_eq_ok_iff.1 hevents
    rw [Builder.takeAll_append] at hb
    obtain ⟨between, hbetween, hb⟩ := exists_of_bind_eq_ok hb
    simp only [ofText, Reader.take, hfeed, hbetween, bind, Except.bind, Reader.finish, hlast, hb]

/-- Texts whose events differ in locations and in the order of directives at one place are read as
trees that differ in these. -/
theorem Template.exists_ofText_of_changed {registry : Registry} {spot : Location}
    {source source' : List Char} {events events' : List Event} {template : Template}
    (hevents : Scanner.events source = .ok events)
    (hevents' : Scanner.events source' = .ok events')
    (hchanged : List.Forall₂ (Event.Changed registry spot) events events')
    (h : ofText source = .ok template) :
    ∃ template', ofText source' = .ok template' ∧
      List.Forall₂ (Node.Changed registry spot) template.children template'.children := by
  obtain ⟨found, b, hfound, hb, rfl⟩ := ofText_eq_ok_iff.1 h
  obtain rfl := Except.ok.inj (hfound.symm.trans hevents)
  obtain ⟨b', hb', hforest⟩ := Builder.Changed.exists_takeAll hchanged .start hb
  exact ⟨⟨b'.tree⟩, ofText_eq_ok_iff.2 ⟨events', b', hevents', hb', rfl⟩,
    List.rel_reverse hforest.forest⟩

end Markup

/-! ### Compiled commands -/

namespace Compiler

open Markup (Template Scanner Event StartTag)

variable {options : Options} {compiler : Compiler}

/-- Templates that differ in locations and in the order of directives at one place are compiled to
the same commands, up to locations and a permutation of the names that belong to the element
there. -/
theorem exists_permutation_of_changed (hcompiler : ofOptions options = .ok compiler)
    {spot : Location} {template template' : Template}
    (hchanged : List.Forall₂ (Markup.Node.Changed .builtin spot) template.children
      template'.children)
    (hnames : ∀ name ∈ template.names .builtin, ∀ n, name ≠ Session.symbol n) :
    (compiler.script template).symbolsAfter 0 =
        (template.owners compiler.filters compiler.directives).length ∧
      ∃ σ : Equiv.Perm Nat,
        (∀ k, (template.owners compiler.filters compiler.directives)[k]? ≠ some (some spot) →
          σ k = k) ∧
        (Stream.ofCommands (compiler.script template').commands).commands.map Command.unplaced =
          (Stream.ofCommands (compiler.script template).commands).commands.map
            (Command.recast (Session.renamed σ)) := by
  obtain rfl := eq_of_ofOptions hcompiler
  obtain ⟨hsymbols, σ, hσ, halike⟩ := Markup.permuted_draftAll Registry.unmarked_builtin
    (Pipeline.without_subset options.disabledFilters) _ _ hchanged hnames 0
  refine ⟨hsymbols.trans (Nat.zero_add _), σ, fun k hk => ?_, ?_⟩
  · by_contra hmoved
    exact hk (hσ k hmoved).2
  · -- Texts are joined after the commands are written, in the same way for both.
    have hcommands := (halike σ fun _ _ _ => rfl).commands
    rw [← Stream.commands_map Command.keepsTexts_unplaced,
      ← Stream.commands_map Command.keepsTexts_recast]
    exact congrArg (fun written => (Stream.ofCommands written).commands) hcommands

/-- The order of directives does not matter. Let a source compile in which no name that the author
writes is one that the compiler makes, and let another source have the same parts but for locations
and for the order of the directives in one start tag, which are all directives of the language and
have different priorities. Then the other source compiles to the same commands, up to locations and
a permutation of the names that the compiler makes. It moves only names that these directives are
given; no other element stands at the place that owns them. -/
theorem exists_compile_of_reordered (hcompiler : ofOptions options = .ok compiler)
    {source source' : List Char} {before after before' after' : List Event} {tag tag' : StartTag}
    (hevents : Scanner.events source = .ok (before ++ .startTag tag :: after))
    (hevents' : Scanner.events source' = .ok (before' ++ .startTag tag' :: after'))
    (hbefore : before'.map Event.unplaced = before.map Event.unplaced)
    (htag : tag.Reordered .builtin tag')
    (hafter : after'.map Event.unplaced = after.map Event.unplaced)
    {template : Template} {compilation : Compilation}
    (htemplate : Template.parse options.bufferSize (Bytes.encode source) = .ok template)
    (hcompile : compiler.compile (Bytes.encode source) = .ok compilation)
    (hnames : ∀ name ∈ template.names .builtin, ∀ n, name ≠ Session.symbol n) :
    ∃ (session : Session) (compilation' : Compilation) (σ : Equiv.Perm Nat),
      compiler.walk template = .ok session ∧
      session.symbols = (template.owners compiler.filters compiler.directives).length ∧
      compiler.compile (Bytes.encode source') = .ok compilation' ∧
      compilation'.commands.map Command.unplaced =
        compilation.commands.map (Command.recast (Session.renamed σ)) ∧
      (∀ k, (template.owners compiler.filters compiler.directives)[k]? ≠
        some (some tag.location) → σ k = k) ∧
      ∀ other, .startTag other ∈ before ++ after → other.location ≠ tag.location := by
  have hchanged := Event.forall₂_changed hbefore htag hafter
  obtain ⟨found, session, hfound, hwalk, hcommands, hsymbols, hscript⟩ :=
    exists_script_of_compile hcompiler hcompile
  obtain rfl := Except.ok.inj (hfound.symm.trans htemplate)
  rw [Template.parse_encode] at hfound
  -- The other source is read as a tree of the same form, so it compiles as well.
  obtain ⟨template', htemplate', hforest⟩ :=
    Template.exists_ofText_of_changed hevents hevents' hchanged hfound
  rw [← Template.parse_encode options.bufferSize] at htemplate'
  obtain ⟨compilation', hcompile'⟩ := exists_compile hcompiler htemplate'
  obtain ⟨found', session', hfound', -, hcommands', -, hscript'⟩ :=
    exists_script_of_compile hcompiler hcompile'
  obtain rfl := Except.ok.inj (hfound'.symm.trans htemplate')
  obtain ⟨hcount, σ, hσ, hsame⟩ := exists_permutation_of_changed hcompiler hforest hnames
  refine ⟨session, compilation', σ, hwalk, hsymbols.trans hcount, hcompile', ?_, hσ, ?_⟩
  · rw [hcommands', hcommands, hscript', hscript]
    exact hsame
  · exact fun other hother => Scanner.location_ne hevents _ hother

/-- An element with two directives around another attribute, and a second element. -/
def orderedSource : List Char :=
  ("<p data-sly-test='$\x7ba\x7d' id='x' data-sly-text='$\x7bb\x7d'/>" ++
    "<i data-sly-text='$\x7bc\x7d'/>").toList

/-- The same with the two directives in the other order, before the attribute. -/
def swappedSource : List Char :=
  ("<p data-sly-text='$\x7bb\x7d' data-sly-test='$\x7ba\x7d' id='x'/>" ++
    "<i data-sly-text='$\x7bc\x7d'/>").toList

/-- The first start tag of `orderedSource`. -/
def orderedTag : StartTag :=
  ⟨"p", [⟨"data-sly-test", some "$\x7ba\x7d", some '\'', ⟨1, 4⟩⟩,
    ⟨"id", some "x", some '\'', ⟨1, 25⟩⟩, ⟨"data-sly-text", some "$\x7bb\x7d", some '\'', ⟨1, 32⟩⟩],
    true, ⟨1, 1⟩⟩

/-- The first start tag of `swappedSource`. -/
def swappedTag : StartTag :=
  ⟨"p", [⟨"data-sly-text", some "$\x7bb\x7d", some '\'', ⟨1, 4⟩⟩,
    ⟨"data-sly-test", some "$\x7ba\x7d", some '\'', ⟨1, 25⟩⟩, ⟨"id", some "x", some '\'', ⟨1, 46⟩⟩],
    true, ⟨1, 1⟩⟩

/-- What follows the first start tag in both. -/
def laterEvents : List Event :=
  [.startTag ⟨"i", [⟨"data-sly-text", some "$\x7bc\x7d", some '\'', ⟨1, 57⟩⟩], true, ⟨1, 54⟩⟩,
    .finish ⟨1, 79⟩]

theorem reordered_swappedTag : orderedTag.Reordered .builtin swappedTag where
  name := rfl
  selfClosing := rfl
  attributes := ⟨by decide +kernel, by decide +kernel⟩
  known := by
    have hall : ∀ attr ∈ orderedTag.attributes,
        (Markup.DirectiveCall.ofAttributeName? attr.name).all
          (fun call => Registry.builtin.contains call.name) = true := by decide +kernel
    intro attr hattr call hcall
    have hknown := hall attr hattr
    rwa [hcall] at hknown
  distinct := by decide +kernel

/-- The two directives are given each other's names, and the name for the second element stays. -/
theorem exists_compile_of_reordered_swap :
    ∃ compiler template compilation compilation', ∃ σ : Equiv.Perm Nat,
      ofOptions Options.default = .ok compiler ∧
      Scanner.events orderedSource = .ok (.startTag orderedTag :: laterEvents) ∧
      Scanner.events swappedSource = .ok (.startTag swappedTag :: laterEvents) ∧
      orderedTag.Reordered .builtin swappedTag ∧
      Template.parse Options.default.bufferSize (Bytes.encode orderedSource) = .ok template ∧
      (∀ name ∈ template.names .builtin, ∀ n, name ≠ Session.symbol n) ∧
      compiler.compile (Bytes.encode orderedSource) = .ok compilation ∧
      compiler.compile (Bytes.encode swappedSource) = .ok compilation' ∧
      compilation'.commands.map Command.unplaced =
        compilation.commands.map (Command.recast (Session.renamed σ)) ∧
      template.owners compiler.filters compiler.directives =
        [some ⟨1, 1⟩, some ⟨1, 1⟩, some ⟨1, 54⟩] ∧
      σ 2 = 2 := by
  have hcompiler : ofOptions Options.default = _ := ofOptions_default Options.default.bufferSize
  have hevents : Scanner.events orderedSource =
      .ok ([] ++ .startTag orderedTag :: laterEvents) := by decide +kernel
  have hevents' : Scanner.events swappedSource =
      .ok ([] ++ .startTag swappedTag :: laterEvents) := by decide +kernel
  obtain ⟨template, htemplate, hread⟩ :
      ∃ template, Template.parse Options.default.bufferSize (Bytes.encode orderedSource) =
        .ok template ∧
        (template.names .builtin == ["a", "b", "c"] &&
          template.owners (.without []) .builtin ==
            [some ⟨1, 1⟩, some ⟨1, 1⟩, some ⟨1, 54⟩]) = true :=
    exists_of_any (by decide +kernel)
  rw [Bool.and_eq_true, beq_iff_eq, beq_iff_eq] at hread
  obtain ⟨hwritten, howners⟩ := hread
  have hnames : ∀ name ∈ template.names .builtin, ∀ n, name ≠ Session.symbol n := by
    intro name hname n heq
    have hother : ∀ name ∈ ["a", "b", "c"], name.toList.head? ≠ some 'v' := by decide
    refine hother name (hwritten ▸ hname) ?_
    rw [heq, Session.symbol, String.toList_append]
    rfl
  obtain ⟨compilation, hcompile⟩ := exists_compile hcompiler htemplate
  obtain ⟨-, compilation', σ, -, -, hcompile', hsame, hkept, -⟩ :=
    exists_compile_of_reordered hcompiler hevents hevents' rfl reordered_swappedTag rfl htemplate
      hcompile hnames
  refine ⟨_, template, compilation, compilation', σ, hcompiler, hevents, hevents',
    reordered_swappedTag, htemplate, hnames, hcompile, hcompile', hsame, howners, hkept 2 ?_⟩
  rw [howners]
  decide

end Compiler

end Stencil
