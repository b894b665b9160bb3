import Stencil.Proofs.CheckedNames

/-!
# Expressions and definitions in document order

Read off its tree: the expressions that a template has checked and the templates that it defines, in
the order in which the walk comes to them. On an element the definitions come first, then the
expressions around the element, those of the attributes, those around the content, and the content
unless something stands for it. What is not walked over is not there.

## Main definitions

* `Mention`: an expression that is checked, or the definition of a template
* `Markup.Template.mentions`: the mentions of a template
* `Script.mentions`: the mentions of a script

## Main results

* `Markup.Template.mentions_draft`: the script of a template has the mentions of the template
-/

namespace Stencil

/-- Something in a template that the names of templates matter to. -/
inductive Mention where
  /-- An expression is checked, of which the filters have left `root`. -/
  | expression (root : Term) (here : Location)
  /-- A template is defined. -/
  | definition (name : String) (here : Location)

section Sources

variable (filters : Pipeline)

/-! ### Text with expressions -/

/-- The mention of an expression. -/
def Written.mention (placement? : Option Placement) (source : Written) : Mention :=
  .expression (source.filtered filters placement?).root source.location

/-- The mentions of a fragment of a text. -/
def Fragment.mentions (placement : Placement) : Fragment → List Mention
  | .text _ => []
  | .expression e here => [Written.mention filters (some placement) ⟨e, here⟩]

/-- The mentions of a text with expressions; one that cannot be read has none. -/
def textMentions (text : String) (here : Location) (placement : Placement) : List Mention :=
  match Fragment.parse here text with
  | .ok fragments => fragments.flatMap (Fragment.mentions filters placement)
  | .error _ => []

/-- The mentions of an attribute. -/
def Markup.Attribute.mentions (attr : Attribute) : List Mention :=
  match attr.value with
  | .absent => []
  | .literal text => textMentions filters text attr.valueLocation (.ofAttribute attr.name)
  | .directive _ e =>
    [Written.mention filters (some (.ofAttribute attr.name)) ⟨e, attr.valueLocation⟩]

/-! ### Directives -/

namespace Occurrence

variable (o : Occurrence)

/-- The template that a directive defines. -/
def definitions : List Mention :=
  match o.directive, o.call.identifier? with
  | .template, some name => [.definition name o.source.location]
  | _, _ => []

/-- The expression of a directive, if it is checked around the element. -/
def elementMentions : List Mention :=
  match o.directive, o.call.identifier? with
  | .use, _ | .test, _ | .list, _ | .repeated, _ | .set, some _ => [o.source.mention filters none]
  | .unwrap, _ => if o.source.expression.root.isNull then [] else [o.source.mention filters none]
  | .element, _ => [o.source.mention filters (some .elementName)]
  | _, _ => []

/-- The expression of a directive, if it is checked after the attributes. -/
def attributeMentions : List Mention :=
  match o.directive, o.call.identifier? with
  | .attr, some target => [o.source.mention filters (some (.ofAttribute target))]
  | .attr, none => [o.source.mention filters none]
  | _, _ => []

/-- The expression of a directive, if it is checked before the content. -/
def contentMentions : List Mention :=
  match o.directive with
  | .call | .insertion | .resource => [o.source.mention filters none]
  | .text => [o.source.mention filters (some .text)]
  | _ => []

end Occurrence

namespace Markup

/-! ### Elements -/

/-- The mentions of a start tag. -/
def Tag.startMentions (registry : Registry) (tag : Tag) : List Mention :=
  let overridden name := (tag.occurrences registry).any (·.overrides name)
  (tag.attributes.filter fun attr => isWritten registry attr && !overridden attr.name).flatMap
      (Attribute.mentions filters) ++
    (tag.occurrences registry).flatMap (Occurrence.attributeMentions filters)

/-- The mentions of an element around those of its content. -/
def Tag.mentions (registry : Registry) (tag : Tag) (content : List Mention) : List Mention :=
  let found := tag.occurrences registry
  -- Templates are defined when the directives are collected, in the order of the attributes; all
  -- else is done in the order of priorities.
  (Markup.occurrences registry tag.attributes).flatMap Occurrence.definitions ++
    found.flatMap (Occurrence.elementMentions filters) ++
    (if tag.isBare registry then [] else tag.startMentions filters registry) ++
    found.flatMap (Occurrence.contentMentions filters) ++
    (if found.any Occurrence.replaces then [] else content)

mutual

/-- The mentions of a node with all below it. -/
def Node.mentions (registry : Registry) : Node → List Mention
  | .text text here => textMentions filters text here .text
  | .comment text here =>
    if isAuthorComment text then [] else textMentions filters text (here.shift 4) .comment
  | .element tag children => tag.mentions filters registry (mentionsAll registry children)

/-- The mentions of nodes one after the other. -/
def mentionsAll (registry : Registry) : List Node → List Mention
  | [] => []
  | node :: rest => node.mentions registry ++ mentionsAll registry rest

end

/-- The mentions of a template, in the order in which the walk comes to them. -/
def Template.mentions (registry : Registry) (template : Template) : List Mention :=
  mentionsAll filters registry template.children

end Markup

end Sources

/-! ### Scripts -/

/-- What a statement checks or defines. -/
def Statement.mentions : Statement → List Mention
  | .check root here => [.expression root here]
  | .declareGlobal name here => [.definition name here]
  | _ => []

namespace Script

/-- What a script checks and defines. -/
def mentions : Script → List Mention
  | .done => []
  | .statement first next => first.mentions ++ next.mentions
  | .block _ body next => body.mentions ++ next.mentions

@[simp] theorem mentions_append (first second : Script) :
    (first ++ second).mentions = first.mentions ++ second.mentions := by
  induction first with
  | done => rfl
  | statement x next ih => simp [mentions, ih]
  | block header body next _ ih => simp [mentions, ih]

end Script

/-- What scripts check and define. -/
def Reading.mentions : Reading Mention where
  script _ k := k.mentions
  header _ := []
  append _ := Script.mentions_append
  block _ _ _ := List.append_nil _

open Draft

variable {filters : Pipeline} {stack : List Command}

/-! ### The mentions of the walk: text and attributes -/

/-- The mention of an act, as far as the act tells it: that of a definition has no location. -/
def Act.mention (filters : Pipeline) : Act → Mention
  | .value source position => source.mention filters (some position.placement)
  | .tagName source _ => source.mention filters (some .elementName)
  | .inclusion source | .resource source | .attributeMap source | .call source =>
    source.mention filters none
  | .definition name _ => .definition name .nowhere

theorem Written.mentions_checkIn (source : Written) (placement? : Option Placement) :
    (source.checkIn filters placement?).mentions =
      [source.mention filters (some (placement?.getD .text))] := by
  cases placement? <;> rfl

theorem Reading.tells_mentions : Reading.mentions.Tells filters (Act.mention filters) where
  fragment stack placement? position e here hposition := by
    have hcheck : Reads .mentions stack (.write (Written.checkIn filters placement? ⟨e, here⟩)) _ :=
      fun _ => Written.mentions_checkIn _ placement?
    rw [Act.mention, ← hposition]
    exact hcheck.bind_last fun _ => Reads.fresh.bind_nil fun _ => .within fun _ => rfl
  dynamic _ _ _ _ := fun _ => rfl

theorem map_mention_textActs (text : String) (here : Location) (position : Position) :
    (textActs text here position).map (Act.mention filters) =
      textMentions filters text here position.placement := by
  unfold textActs textMentions
  cases Fragment.parse here text with
  | error => rfl
  | ok fragments =>
    rw [List.map_flatMap]
    refine List.flatMap_congr fun fragment _ => ?_
    cases fragment <;> rfl

theorem Markup.Attribute.map_mention_acts (attr : Attribute) :
    attr.acts.map (Act.mention filters) = attr.mentions filters := by
  unfold Attribute.acts Attribute.mentions
  cases attr.value with
  | literal text => exact map_mention_textActs _ _ _
  | _ => rfl

/-! ### The mentions of the walk: directives -/

namespace Occurrence

/-- An invocation checks what a directive checks, at the same places. -/
structure Checks (o : Occurrence) (i : Invocation) : Prop where
  elementOpening : ∀ filters, (i.elementOpening filters).mentions = o.elementMentions filters := by
    intros; rfl
  attributeScript : ∀ filters,
      (i.attributeScript filters).mentions = o.attributeMentions filters := by
    intros; rfl
  contentOpening : ∀ filters, (i.contentOpening filters).mentions = o.contentMentions filters := by
    intros; rfl

/-- The invocation of a directive checks what the directive checks. -/
theorem checks_invocation {o : Occurrence} (hprobe : o.directive.isProbe = false) (n : Nat) :
    o.Checks (o.invocation.value n) := by
  obtain ⟨directive, ⟨name, arguments⟩, source⟩ := o
  cases directive with
  | probe => cases hprobe
  | set | test | attr => cases arguments <;> exact {}
  | template =>
    cases arguments with
    | nil => exact {}
    | cons first rest =>
      rw [invocation, Directive.value_draft_template source n rfl]
      exact {}
  | unwrap =>
    rw [invocation, Directive.value_draft_unwrap]
    cases hnull : source.expression.root.isNull with
    | true => exact { elementOpening := fun filters => by simp only [elementMentions, hnull]; rfl }
    | false => exact { elementOpening := fun filters => by simp only [elementMentions, hnull]; rfl }
  | _ => exact {}

/-- The making of an invocation defines what the directive defines. -/
theorem mentions_invocation (o : Occurrence) :
    Reads .mentions stack o.invocation o.definitions := by
  obtain ⟨directive, ⟨name, arguments⟩, source⟩ := o
  cases directive with
  | set | test => cases arguments <;> exact fun _ => rfl
  | template =>
    cases arguments with
    | nil => exact fun _ => rfl
    | cons first rest =>
      simp only [invocation, Directive.draft, Directive.draftTemplate, Directive.draftIdentifier,
        Markup.DirectiveCall.identifier?, List.head?_cons, pure_bind]
      split <;> exact fun _ => rfl
  | unwrap =>
    simp only [invocation, Directive.draft]
    split <;> exact fun _ => rfl
  | _ => exact fun _ => rfl

variable {found : List (Occurrence × Nat)} {tag : String} {d : Draft Unit}
  {mentions : List Mention}

theorem mentions_aroundElement (hprobe : ∀ x ∈ found, x.1.directive.isProbe = false)
    (hd : ∀ stack, Reads .mentions stack d mentions) :
    Reads .mentions stack (Invocation.aroundElement filters tag (invocations found) d)
      ((found.map (·.1)).flatMap (elementMentions filters) ++ mentions) := by
  rw [Invocation.aroundElement, invocations, List.foldr_map, List.flatMap_map]
  refine Reads.aroundAll found (fun x hx stack => ?_) (hd _)
  rw [← (checks_invocation (hprobe x hx) x.2).elementOpening filters]
  exact congrArg (_ ++ ·) (List.flatMap_eq_nil_iff.2 fun _ _ => rfl) |>.trans (List.append_nil _)

theorem mentions_aroundContent (hprobe : ∀ x ∈ found, x.1.directive.isProbe = false)
    (hd : ∀ stack, Reads .mentions stack d mentions) :
    Reads .mentions stack (Invocation.aroundContent filters (invocations found) d)
      ((found.map (·.1)).flatMap (contentMentions filters) ++ mentions) := by
  rw [Invocation.aroundContent, invocations, List.foldr_map, List.flatMap_map]
  refine Reads.aroundAll found (fun x hx stack => ?_) (hd _)
  rw [← (checks_invocation (hprobe x hx) x.2).contentOpening filters]
  exact congrArg (_ ++ ·) (List.flatMap_eq_nil_iff.2 fun _ _ => rfl) |>.trans (List.append_nil _)

theorem mentions_attributeScripts (hprobe : ∀ x ∈ found, x.1.directive.isProbe = false) :
    Reads .mentions stack ((invocations found).forM fun i => .write (i.attributeScript filters))
      ((found.map (·.1)).flatMap (attributeMentions filters)) := by
  rw [invocations, List.forM_eq_forM, List.forM_map, List.flatMap_map]
  refine Reads.forM found fun x hx => ?_
  rw [← (checks_invocation (hprobe x hx) x.2).attributeScript filters]
  exact .write _

end Occurrence

namespace Markup

open Stencil.Occurrence

variable {registry : Registry}

/-- The making of invocations defines what the directives among attributes define. -/
theorem mentions_draftInvocations (attributes : List Attribute) :
    Reads .mentions stack (draftInvocations registry attributes)
      ((occurrences registry attributes).flatMap definitions) :=
  draftInvocations_induct (.pure _)
    (fun o _ _ ih => (mentions_invocation o).bind fun _ => ih.bind_last fun _ => .pure _)
    (fun _ _ _ _ ih => (Reads.report _ _ _).bind_nil fun _ => ih) attributes

/-! ### The mentions of the walk: elements -/

theorem mentions_draftTagName (name : String) (effect : Effect) :
    Reads .mentions stack (draftTagName name effect) [] := by
  unfold draftTagName
  cases effect.tagVariable with
  | none => exact .text _
  | some held => exact fun _ => rfl

theorem Composed.mentions_draftTags {tag : Tag} {found : List (Occurrence × Nat)}
    (h : Composed registry tag found) {d : Draft Unit} {content : List Mention}
    (hd : ∀ stack, Reads .mentions stack d content) :
    Reads .mentions stack (draftTags filters registry tag (invocations found) d)
      ((if tag.isBare registry then [] else tag.startMentions filters registry) ++
        ((tag.occurrences registry).flatMap (contentMentions filters) ++
          if (tag.occurrences registry).any Occurrence.replaces then [] else content)) := by
  have htags : Reads .mentions stack (draftTags filters registry tag (invocations found) d) _ :=
    h.reads_draftTags
      (fun effect skip heffect => h.reads_draftStartTag heffect skip Reading.tells_mentions
        (mentions_draftTagName _ _) (mentions_attributeScripts h.probe))
      (fun effect heffect => mentions_aroundContent h.probe (h.reads_content heffect hd))
      (fun effect skip _ => reads_draftEndTag skip (mentions_draftTagName _ _))
  rw [h.map_fst, ite_self, List.append_nil, List.nil_append, List.map_flatMap] at htags
  simpa only [Tag.startMentions, Attribute.map_mention_acts] using htags

/-- An element has the mentions of its tag around those of its content. -/
theorem mentions_draftElement (hregistry : registry.Unmarked) (tag : Tag) {d : Draft Unit}
    {content : List Mention} (hd : ∀ stack, Reads .mentions stack d content) :
    Reads .mentions stack (draftElement filters registry tag d)
      (tag.mentions filters registry content) := by
  simp only [Tag.mentions, List.append_assoc]
  refine reads_draftElement hregistry tag (mentions_draftInvocations tag.attributes)
    fun found stack hcomposed => ?_
  have hinside : Reads .mentions stack (Invocation.aroundElement filters tag.name
      (invocations found) (draftTags filters registry tag (invocations found) d)) _ :=
    mentions_aroundElement hcomposed.probe fun _ => hcomposed.mentions_draftTags hd
  rwa [hcomposed.map_fst] at hinside

mutual

theorem Node.mentions_draft (hregistry : registry.Unmarked) :
    ∀ (node : Node) (stack : List Command),
      Reads .mentions stack (node.draft filters registry) (node.mentions filters registry)
  | .text text here, stack => by
    rw [Node.draft, Node.mentions]
    have htext : Reads .mentions stack (draftInterpolated filters text here none)
        ((textActs text here .content).map (Act.mention filters)) :=
      reads_draftInterpolated Reading.tells_mentions rfl text here
    rw [map_mention_textActs] at htext
    exact htext
  | .comment text here, stack => by
    rw [Node.draft, Node.mentions]
    have hcomment : Reads .mentions stack (draftComment filters text here) _ :=
      reads_draftComment Reading.tells_mentions text here
    rw [apply_ite (List.map _), List.map_nil, map_mention_textActs] at hcomment
    exact hcomment
  | .element tag children, stack => by
    rw [Node.draft, Node.mentions]
    exact mentions_draftElement hregistry tag (mentions_draftAll hregistry children)

theorem mentions_draftAll (hregistry : registry.Unmarked) :
    ∀ (nodes : List Node) (stack : List Command),
      Reads .mentions stack (draftAll filters registry nodes) (mentionsAll filters registry nodes)
  | [], stack => by
    rw [draftAll, mentionsAll]
    exact .pure ()
  | node :: rest, stack => by
    rw [draftAll, mentionsAll]
    exact (Node.mentions_draft hregistry node stack).bind fun _ =>
      mentions_draftAll hregistry rest stack

end

/-- The script of a template has the mentions of the template. -/
theorem Template.mentions_draft (hregistry : registry.Unmarked) (template : Template)
    (stack : List Command) :
    Reads .mentions stack (template.draft filters registry) (template.mentions filters registry) :=
  mentions_draftAll hregistry template.children stack

end Markup

end Stencil
