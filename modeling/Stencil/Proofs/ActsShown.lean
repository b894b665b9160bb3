import Stencil.Proofs.Compilation
import Stencil.Proofs.Occurrences

/-!
# Commands show what a template does

The script of a template shows just what the tree of the template says, in the same order, whatever
blocks are open and however many names were made before. Other readings of scripts follow the tree
in the same way.

## Main definitions

* `Reading.Tells`: a reading that gives one thing for each expression

## Main results

* `Markup.shows_draftElement`: an element shows its acts around those of its content
* `Markup.Template.shows_draft`: the script of a template shows the acts of the template
* `Compiler.shown_compile`: compiled commands show the acts of the template
-/

namespace Stencil

open Draft

variable {σ : Type} {r : Reading σ} {give : Act → σ} {filters : Pipeline} {stack : List Command}

/-! ### Text with expressions -/

/-- A reading gives one thing for each expression that is written: what stands for its act. -/
structure Reading.Tells (r : Reading σ) (filters : Pipeline) (give : Act → σ) : Prop where
  fragment : ∀ stack placement? position e here, placement?.getD .text = position.placement →
    Reads r stack ((Fragment.expression e here).draft filters placement?)
      [give (.value ⟨e, here⟩ position)]
  dynamic : ∀ stack name source quote, Reads r stack
    (Markup.draftDynamicAttribute filters name source quote)
      [give (.value source (.attributeValue name))]

theorem reads_draftMalformed (error : ExpressionError) :
    Reads r stack (draftMalformed error) [] :=
  .report _ _ _

section Texts

variable (hr : r.Tells filters give) {placement? : Option Placement} {position : Position}

include hr

theorem reads_fragments (h : placement?.getD .text = position.placement)
    (fragments : List Fragment) :
    Reads r stack (fragments.forM (Fragment.draft filters placement?))
      ((fragments.flatMap (Fragment.acts position)).map give) := by
  rw [List.map_flatMap]
  refine .forM fragments fun fragment _ => ?_
  cases fragment with
  | text literal => exact .text _
  | expression e here => exact hr.fragment stack placement? position e here h

theorem reads_draftInterpolated (h : placement?.getD .text = position.placement) (text : String)
    (here : Location) :
    Reads r stack (draftInterpolated filters text here placement?)
      ((textActs text here position).map give) := by
  unfold draftInterpolated textActs
  cases Fragment.parse here text with
  | ok fragments => exact reads_fragments hr h fragments
  | error error => exact (reads_draftMalformed error).bind_nil fun _ => .text _

namespace Markup

theorem reads_draftLiteralAttribute (name text : String) (here : Location) (quote : String) :
    Reads r stack (draftLiteralAttribute filters name text here quote)
      ((textActs text here (.attributeValue name)).map give) := by
  unfold draftLiteralAttribute textActs
  generalize Fragment.parse here text = parsed
  split
  · next error => exact (reads_draftMalformed error).bind_nil fun _ => .text _
  · exact hr.dynamic stack name _ quote
  · next fragments _ =>
    have hplacement : (some (Placement.ofAttribute name)).getD .text =
        (Position.attributeValue name).placement := rfl
    have hfragments : Reads r stack (fragments.forM (Fragment.draft filters _)) _ :=
      reads_fragments hr hplacement fragments
    exact (Reads.text _).bind_nil fun _ => hfragments.bind_last fun _ => .text quote

theorem Attribute.reads_draft (attr : Attribute) :
    Reads r stack (attr.draft filters) (attr.acts.map give) := by
  unfold Attribute.draft Attribute.acts
  cases attr.value with
  | absent => exact .text _
  | literal text => exact reads_draftLiteralAttribute hr _ _ _ _
  | directive call e => exact hr.dynamic stack _ _ _

theorem reads_draftComment (text : String) (here : Location) :
    Reads r stack (draftComment filters text here)
      ((if isAuthorComment text then [] else textActs text (here.shift 4) .comment).map give) := by
  unfold draftComment
  split
  · exact .pure ()
  · have hplacement : (some Placement.comment).getD .text = Position.comment.placement := rfl
    exact (Reads.text "<!--").bind_nil fun _ =>
      (reads_draftInterpolated hr hplacement text (here.shift 4)).bind_last fun _ => .text _

end Markup

end Texts

theorem Written.shown_checkIn (source : Written) (placement? : Option Placement) :
    (source.checkIn filters placement?).shown stack = [] := by
  cases placement? <;> rfl

/-- Commands show the expressions of texts and attributes. -/
theorem Reading.tells_shown : Reading.shown.Tells filters (Act.shown filters) where
  fragment stack placement? position e here hposition := by
    have hcheck : Shows stack (.write (Written.checkIn filters placement? ⟨e, here⟩)) [] :=
      fun _ => Written.shown_checkIn _ placement?
    rw [Act.shown, ← hposition]
    exact hcheck.bind_nil fun _ => Reads.fresh.bind_nil fun name =>
      fun _ => Script.shown_binding _ name _ _ stack
  dynamic stack name source quote := by
    have hcheck : Shows stack (.say (source.check filters (some (.ofAttribute name)))) [] :=
      fun _ => rfl
    exact hcheck.bind_nil fun _ => Reads.fresh.bind_nil fun held =>
      fun _ => Script.shown_bindingIf _ held _ _ (" " ++ name ++ "=" ++ quote) quote stack

/-! ### Directives -/

namespace Markup

variable {registry : Registry}

/-- The making of invocations writes no command. -/
theorem commands_draftInvocations (attributes : List Attribute) (n : Nat) :
    ((draftInvocations registry attributes).script n).commands = [] :=
  Script.commands_of_prepares (prepares_draftInvocations attributes n)

theorem shows_draftInvocations (attributes : List Attribute) :
    Shows stack (draftInvocations registry attributes) [] :=
  fun n => by
    rw [Reading.script_shown, ← Script.shown_commands, commands_draftInvocations]
    rfl

/-- The directives among attributes leave no marks. -/
theorem isProbe_of_mem_occurrences (hregistry : registry.Unmarked) (attributes : List Attribute) :
    ∀ o ∈ occurrences registry attributes, o.directive.isProbe = false := by
  intro o ho
  obtain ⟨attr, -, hattr⟩ := List.mem_filterMap.1 ho
  split at hattr
  · next call e _ =>
    obtain ⟨directive, hfind, rfl⟩ := Option.map_eq_some_iff.1 hattr
    exact hregistry _ _ hfind
  · cases hattr

end Markup

/-! ### Effects -/

namespace Effect

theorem all_cons (effect : Effect) (rest : List Effect) :
    all (effect :: rest) = effect.and (all rest) := rfl

variable (effects : List Effect)

theorem replaces_all : (all effects).replaces = effects.any (·.replaces) := by
  induction effects with
  | nil => rfl
  | cons effect rest ih => rw [all_cons, List.any_cons, ← ih, and]

theorem overrides_all (name : String) :
    (all effects).overrides name = effects.any (·.overrides name) := by
  induction effects with
  | nil => rfl
  | cons effect rest ih => rw [all_cons, List.any_cons, ← ih, and]

theorem skip_all : decide ((all effects).skip = .always) =
    effects.any fun effect => decide (effect.skip = .always) := by
  have hor (first second : TagSkip) : decide (first.or second = .always) =
      (decide (first = .always) || decide (second = .always)) := by
    cases first <;> cases second <;> rfl
  induction effects with
  | nil => rfl
  | cons effect rest ih =>
    rw [List.any_cons, ← ih, ← hor]
    rfl

end Effect

/-! ### Elements -/

namespace Occurrence

/-- The invocations of directives, each made after the number of names that stands with it. -/
def invocations (found : List (Occurrence × Nat)) : List Invocation :=
  found.map fun x => x.1.invocation.value x.2

variable {found : List (Occurrence × Nat)} {tag : String} {d : Draft Unit} {acts : List Act}

theorem foldl_insideAll (found : List (Occurrence × Nat)) (stack : List Command) :
    found.foldl (fun stack x =>
        Header.insideAll ((x.1.invocation.value x.2).elementHeaders filters tag) stack) stack =
      stackInside filters tag found stack := by
  induction found generalizing stack with
  | nil => rfl
  | cons x rest ih => exact ih _

/-- The blocks of directives around an element show what the directives do there. -/
theorem shows_aroundElement (hprobe : ∀ x ∈ found, x.1.directive.isProbe = false)
    (hd : Shows (stackInside filters tag found stack) d (acts.map (Act.shown filters))) :
    Shows stack (Invocation.aroundElement filters tag (invocations found) d)
      (((found.map (·.1)).flatMap elementActs ++ acts).map (Act.shown filters)) := by
  rw [← foldl_insideAll] at hd
  rw [Invocation.aroundElement, invocations, List.foldr_map, List.map_append, List.map_flatMap,
    List.flatMap_map]
  refine Reads.aroundAll found (fun x hx stack => ?_) hd
  have hfits := fits_invocation (hprobe x hx) x.2
  rw [Reading.script_shown, Reading.header_shown, hfits.elementOpening, hfits.elementHeaders,
    List.nil_append]

/-- The blocks of directives around the content show what the directives do there. -/
theorem shows_aroundContent (hprobe : ∀ x ∈ found, x.1.directive.isProbe = false)
    (hd : ∀ stack, Shows stack d (acts.map (Act.shown filters))) :
    Shows stack (Invocation.aroundContent filters (invocations found) d)
      (((found.map (·.1)).flatMap contentActs ++ acts).map (Act.shown filters)) := by
  rw [Invocation.aroundContent, invocations, List.foldr_map, List.map_append, List.map_flatMap,
    List.flatMap_map]
  refine Reads.aroundAll found (fun x hx stack => ?_) (hd _)
  have hfits := fits_invocation (hprobe x hx) x.2
  rw [Reading.script_shown, Reading.header_shown, hfits.contentOpening, hfits.contentHeaders,
    List.append_nil]

/-- The attributes that directives add show what the directives do there. -/
theorem shows_attributeScripts (hprobe : ∀ x ∈ found, x.1.directive.isProbe = false) :
    Shows stack ((invocations found).forM fun i => .write (i.attributeScript filters))
      (((found.map (·.1)).flatMap attributeActs).map (Act.shown filters)) := by
  rw [invocations, List.forM_eq_forM, List.forM_map, List.map_flatMap, List.flatMap_map]
  refine Reads.forM found fun x hx => ?_
  rw [← (fits_invocation (hprobe x hx) x.2).attributeScript filters stack]
  exact .write _

end Occurrence

namespace Markup

open Occurrence

variable {d : Draft Unit}

/-- The directives of a tag in order of priority, each with the number of names made before it. -/
structure Composed (registry : Registry) (tag : Tag) (found : List (Occurrence × Nat)) : Prop where
  map_fst : found.map (·.1) = tag.occurrences registry
  probe : ∀ x ∈ found, x.1.directive.isProbe = false
  sorted : found.Pairwise fun x y => x.1.directive.priority ≤ y.1.directive.priority
  apart : found.Pairwise Apart

variable {registry : Registry} {tag : Tag} {found : List (Occurrence × Nat)}

theorem composed_sort (hregistry : registry.Unmarked) (tag : Tag) (n : Nat) :
    Composed registry tag (Priority.sort (·.1.directive.priority)
      (numbered n (occurrences registry tag.attributes))) where
  map_fst := by
    have hmap := Priority.map_sort Prod.fst (fun o : Occurrence => o.directive.priority)
      (numbered n (occurrences registry tag.attributes))
    rw [map_fst_numbered] at hmap
    exact hmap
  probe x hx := by
    refine isProbe_of_mem_occurrences hregistry tag.attributes x.1 ?_
    rw [← map_fst_numbered n (occurrences registry tag.attributes)]
    exact List.mem_map_of_mem ((Priority.sort_perm _).mem_iff.1 hx)
  sorted := Priority.pairwise_sort _
  apart := ((Priority.sort_perm _).pairwise_iff fun h => h.symm).2 (pairwise_numbered n _)

/-- The invocations on an element in order of priority. -/
theorem sort_draftInvocations (attributes : List Attribute) (n : Nat) :
    (Priority.sort (·.2) ((draftInvocations registry attributes).value n)).map (·.1) =
      invocations (Priority.sort (·.1.directive.priority)
        (numbered n (occurrences registry attributes))) := by
  have hmap := Priority.map_sort
    (fun x : Occurrence × Nat => (x.1.invocation.value x.2, x.1.directive.priority)) Prod.snd
    (numbered n (occurrences registry attributes))
  rw [value_draftInvocations, invocations, ← hmap, List.map_map]
  rfl

namespace Composed

/-- What holds of some invocation on an element holds of some of its directives. -/
theorem any_invocations (h : Composed registry tag found) {f : Invocation → Bool}
    {g : Occurrence → Bool} (hsame : ∀ {o i}, Fits o i → f i = g o) :
    (invocations found).any f = (tag.occurrences registry).any g := by
  rw [← h.map_fst, invocations, List.any_map, List.any_map, Bool.eq_iff_iff, List.any_eq_true,
    List.any_eq_true]
  refine exists_congr fun x => and_congr_right fun hx => ?_
  rw [Function.comp, Function.comp, hsame (fits_invocation (h.probe x hx) x.2)]

variable {effect : Effect}

theorem replaces (h : Composed registry tag found)
    (heffect : effect = Effect.all ((invocations found).map Invocation.effect)) :
    effect.replaces = (tag.occurrences registry).any Occurrence.replaces := by
  rw [heffect, Effect.replaces_all, List.any_map]
  exact h.any_invocations fun hfits => hfits.replaces

theorem overrides (h : Composed registry tag found)
    (heffect : effect = Effect.all ((invocations found).map Invocation.effect)) (name : String) :
    effect.overrides name = (tag.occurrences registry).any (·.overrides name) := by
  rw [heffect, Effect.overrides_all, List.any_map]
  exact h.any_invocations fun hfits => congrFun hfits.overrides name

theorem skip (h : Composed registry tag found)
    (heffect : effect = Effect.all ((invocations found).map Invocation.effect)) :
    decide (effect.skip = .always) = (tag.occurrences registry).any Occurrence.unwraps := by
  rw [heffect, Effect.skip_all, List.any_map]
  exact h.any_invocations fun hfits => hfits.skip

/-- Inside the blocks around an element, the name of the tag shows what the directives of the tag
say. -/
theorem shows_draftTagName (h : Composed registry tag found)
    (heffect : effect = Effect.all ((invocations found).map Invocation.effect))
    {inner : List Command}
    (hinner : ∀ name, Command.valueOf? name inner =
      Command.valueOf? name (stackInside filters tag.name found stack)) :
    Shows inner (draftTagName tag.name effect)
      ((tag.nameActs registry).map (Act.shown filters)) := by
  rw [invocations, List.map_map] at heffect
  rw [Tag.nameActs, ← h.map_fst, ← shown_tagVariable h.probe h.sorted h.apart stack]
  change Shows inner _
    (List.map _ (Effect.all (found.map (Invocation.effect ∘ _))).tagVariable.toList)
  rw [← heffect]
  unfold draftTagName
  cases effect.tagVariable with
  | none => exact .text _
  | some held =>
    intro n
    simp [Reading.script_shown, ← hinner, Script.shown, Statement.shown]

end Composed

/-! ### Tags -/

theorem valueOf?_skipHeaders (skip : TagSkip) (name : String) (stack : List Command) :
    Command.valueOf? name (Header.insideAll (skipHeaders skip) stack) =
      Command.valueOf? name stack := by
  cases skip with
  | when condition => exact Command.valueOf?_cons rfl stack
  | _ => rfl

theorem reads_unlessSkipped (skip : TagSkip) {found : List σ}
    (hd : Reads r (Header.insideAll (skipHeaders skip) stack) d found) :
    Reads r stack (.around .done (skipHeaders skip) d) found := by
  refine .around_nil ?_ hd
  cases skip with
  | when condition => exact (List.append_nil _).trans (r.conditional condition false)
  | _ => rfl

namespace Composed

variable {effect : Effect} {name start scripts ending content : List σ}

theorem reads_draftStartTag (h : Composed registry tag found)
    (heffect : effect = Effect.all ((invocations found).map Invocation.effect)) (skip : TagSkip)
    (hr : r.Tells filters give)
    (hname : Reads r (Header.insideAll (skipHeaders skip) stack)
      (draftTagName tag.name effect) name)
    (hscripts : Reads r (Header.insideAll (skipHeaders skip) stack)
      ((invocations found).forM fun i => .write (i.attributeScript filters)) scripts) :
    Reads r stack (draftStartTag filters registry tag (invocations found) effect skip)
      (name ++ ((tag.attributes.filter fun attr => isWritten registry attr &&
        !(tag.occurrences registry).any (·.overrides attr.name)).flatMap Attribute.acts).map give ++
          scripts) := by
  refine reads_unlessSkipped skip ((Reads.text "<").bind_nil fun _ => ?_)
  simp only [← h.overrides heffect]
  rw [List.map_flatMap, List.append_assoc]
  exact hname.bind fun _ => (Reads.forM _ fun attr _ => attr.reads_draft hr).bind fun _ =>
    hscripts.bind_last fun _ => .text _

theorem reads_draftEndTag (skip : TagSkip)
    (hname : Reads r (Header.insideAll (skipHeaders skip) stack)
      (draftTagName tag.name effect) name) :
    Reads r stack (draftEndTag tag effect skip) name :=
  reads_unlessSkipped skip ((Reads.text "</").bind_nil fun _ => hname.bind_last fun _ => .text ">")

/-- The content is read unless something stands for it. -/
theorem reads_content (h : Composed registry tag found)
    (heffect : effect = Effect.all ((invocations found).map Invocation.effect))
    (hd : ∀ stack, Reads r stack d content) (stack : List Command) :
    Reads r stack (if effect.replaces then pure () else d)
      (if (tag.occurrences registry).any Occurrence.replaces then [] else content) := by
  rw [h.replaces heffect]
  split
  · exact .pure ()
  · exact hd stack

/-- The tags of an element are read around what stands between them, unless they are left out. -/
theorem reads_draftTags (h : Composed registry tag found)
    (hstart : ∀ effect skip, effect = Effect.all ((invocations found).map Invocation.effect) →
      Reads r stack (draftStartTag filters registry tag (invocations found) effect skip) start)
    (hcontent : ∀ effect, effect = Effect.all ((invocations found).map Invocation.effect) →
      Reads r stack (Invocation.aroundContent filters (invocations found)
        (if effect.replaces then pure () else d)) content)
    (hend : ∀ effect skip, effect = Effect.all ((invocations found).map Invocation.effect) →
      Reads r stack (draftEndTag tag effect skip) ending) :
    Reads r stack (draftTags filters registry tag (invocations found) d)
      ((if tag.isBare registry then [] else start) ++ (content ++
        if tag.isBare registry || !tag.hasEndTag || tag.selfClosing then [] else ending)) := by
  unfold draftTags
  -- All effects count together, so they are kept as one, and so is what becomes of the tags.
  generalize heffect : Effect.all ((invocations found).map Invocation.effect) = effect
    at hstart hcontent hend
  simp only
  generalize hskip : (if isBareElement tag.name then TagSkip.always else effect.skip) = skip
  have hbare : tag.isBare registry = decide (skip = .always) := by
    rw [Tag.isBare, ← h.skip heffect.symm, ← hskip]
    cases isBareElement tag.name <;> rfl
  refine Reads.bind ?_ fun _ => (hcontent effect rfl).bind fun _ => ?_
  · by_cases halways : skip = .always
    · simpa [hbare, halways] using Reads.pure ()
    · simpa [hbare, halways] using hstart effect skip rfl
  · by_cases halways : skip = .always
    · simpa [hbare, halways] using Reads.pure ()
    · cases hhas : tag.hasEndTag <;> cases hself : tag.selfClosing
      case true.false => simpa [hbare, halways] using hend effect skip rfl
      all_goals simpa [hbare] using Reads.pure ()

/-- The tags and the content of an element show what the tag says, around the content. -/
theorem shows_draftTags (h : Composed registry tag found) {acts : List Act}
    (hd : ∀ stack, Shows stack d (acts.map (Act.shown filters))) :
    Shows (stackInside filters tag.name found stack)
      (draftTags filters registry tag (invocations found) d)
      ((tag.insideActs registry acts).map (Act.shown filters)) := by
  have hname {effect : Effect}
      (heffect : effect = Effect.all ((invocations found).map Invocation.effect))
      (skip : TagSkip) :
      Shows (Header.insideAll (skipHeaders skip) (stackInside filters tag.name found stack))
        (draftTagName tag.name effect) ((tag.nameActs registry).map (Act.shown filters)) :=
    h.shows_draftTagName heffect fun name => valueOf?_skipHeaders skip name _
  have htags : Shows (stackInside filters tag.name found stack)
      (draftTags filters registry tag (invocations found) d) _ :=
    h.reads_draftTags
      (fun effect skip heffect => h.reads_draftStartTag heffect skip Reading.tells_shown
        (hname heffect skip) (shows_attributeScripts h.probe))
      (fun effect heffect => shows_aroundContent h.probe fun stack => by
        have hcontent := h.reads_content heffect hd stack
        rwa [← List.map_nil (f := Act.shown filters), ← apply_ite (List.map _)] at hcontent)
      (fun effect skip heffect => reads_draftEndTag skip (hname heffect skip))
  rw [h.map_fst] at htags
  simpa only [Tag.insideActs, Tag.startActs, List.map_append, apply_ite (List.map _),
    List.map_nil, List.append_assoc] using htags

end Composed

/-- An element is read after the making of its invocations, inside the blocks of them. -/
theorem reads_draftElement (hregistry : registry.Unmarked) (tag : Tag) {first inside : List σ}
    (hfirst : Reads r stack (draftInvocations registry tag.attributes) first)
    (hinside : ∀ found stack, Composed registry tag found →
      Reads r stack (Invocation.aroundElement filters tag.name (invocations found)
        (draftTags filters registry tag (invocations found) d)) inside) :
    Reads r stack (draftElement filters registry tag d) (first ++ inside) := by
  refine hfirst.bind_value fun n => ?_
  simp only [sort_draftInvocations]
  -- The names of the directives depend on the names made before, what they do does not.
  have helement := hinside _ (Header.insideAll
    (if isRawTextElement tag.name then [.rawText] else []) stack) (composed_sort hregistry tag n)
  refine .around_nil ?_ helement
  split
  · exact (List.append_nil _).trans r.rawText
  · rfl

/-- An element shows what its tag says, around what its content does. -/
theorem shows_draftElement (hregistry : registry.Unmarked) (tag : Tag) {acts : List Act}
    (hd : ∀ stack, Shows stack d (acts.map (Act.shown filters))) :
    Shows stack (draftElement filters registry tag d)
      ((tag.acts registry acts).map (Act.shown filters)) := by
  refine reads_draftElement hregistry tag (shows_draftInvocations tag.attributes)
    fun found stack hcomposed => ?_
  have hinside : Shows stack _ _ :=
    shows_aroundElement hcomposed.probe (hcomposed.shows_draftTags hd)
  rwa [hcomposed.map_fst] at hinside

mutual

theorem Node.shows_draft (hregistry : registry.Unmarked) : ∀ (node : Node) (stack : List Command),
    Shows stack (node.draft filters registry) ((node.acts registry).map (Act.shown filters))
  | .text text here, stack => by
    rw [Node.draft, Node.acts]
    exact reads_draftInterpolated Reading.tells_shown rfl text here
  | .comment text here, stack => by
    rw [Node.draft, Node.acts]
    exact reads_draftComment Reading.tells_shown text here
  | .element tag children, stack => by
    rw [Node.draft, Node.acts]
    exact shows_draftElement hregistry tag (shows_draftAll hregistry children)

theorem shows_draftAll (hregistry : registry.Unmarked) :
    ∀ (nodes : List Node) (stack : List Command), Shows stack (draftAll filters registry nodes)
      ((actsAll registry nodes).map (Act.shown filters))
  | [], stack => by
    rw [draftAll, actsAll]
    exact .pure ()
  | node :: rest, stack => by
    rw [draftAll, actsAll, List.map_append]
    exact (Node.shows_draft hregistry node stack).bind fun _ => shows_draftAll hregistry rest stack

end

/-- The script of a template shows the acts of the template. -/
theorem Template.shows_draft (hregistry : registry.Unmarked) (template : Template) :
    Shows stack (template.draft filters registry)
      ((template.acts registry).map (Act.shown filters)) :=
  shows_draftAll hregistry template.children stack

end Markup

/-- What is compiled shows the acts of the template, through the filters that are left. -/
theorem Compiler.shown_compile {options : Options} {compiler : Compiler} {bytes : List UInt8}
    {compilation : Compilation} (hcompiler : ofOptions options = .ok compiler)
    (hcompile : compiler.compile bytes = .ok compilation) :
    ∃ template, Markup.Template.parse options.bufferSize bytes = .ok template ∧
      Command.shown [] compilation.commands =
        (template.acts .builtin).map (Act.shown (.without options.disabledFilters)) := by
  obtain ⟨template, htemplate, hcommands, -⟩ := exists_of_compile hcompiler hcompile
  obtain rfl := eq_of_ofOptions hcompiler
  refine ⟨template, htemplate, ?_⟩
  rw [hcommands, commands_play_start, Stream.shown_ofCommands, Script.shown_commands]
  exact template.shows_draft Registry.unmarked_builtin 0

end Stencil
