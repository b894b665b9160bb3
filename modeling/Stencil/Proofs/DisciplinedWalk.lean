import Stencil.Proofs.ActsShown
import Stencil.Proofs.Disciplines
import Stencil.Proofs.ReadTrees

/-!
# The walk under a discipline

The walk transforms an expression before it binds what the filters leave of it, or a term made of
that. The names of variables are made or come from the directives, and a variable is referred to
only where it is declared. So the script of a template keeps to every discipline that allows these
names and values.

## Main definitions

* `Written.Makes`: the values that the walk makes of an expression
* `Discipline.Suits`: a discipline that allows the names and values of the walk
* `Occurrence.Named`: the names that a directive gives are allowed
* `Invocation.Keeps`: an invocation keeps to the rules

## Main results

* `Occurrence.keeps_invocation`: the invocation of a directive keeps to the rules
* `Markup.Template.admits_draft`: so does the script of a template
-/

namespace Stencil

open Discipline

/-- The runtime functions to which the options of an expression are handed on. -/
def optionFunctions : List String :=
  ["use", "include", "resource"]

/-- The values that the walk makes of what the filters leave of an expression. -/
inductive Written.Makes (filters : Pipeline) (placement? : Option Placement) (source : Written) :
    Term → Prop
  | root : Makes filters placement? source (source.filtered filters placement?).root
  | options : Makes filters placement? source (.map (source.filtered filters placement?).options)
  /-- The options are handed on to a function of the runtime. -/
  | handed {function : String} (h : function ∈ optionFunctions) :
    Makes filters placement? source (.call function [(source.filtered filters placement?).root,
      .map (source.filtered filters placement?).options])
  | attributes : Makes filters placement? source
      (.call "attributeMap" [(source.filtered filters placement?).root])
  /-- The name of a tag, if there is no other. -/
  | choice (tag : String) : Makes filters placement? source
      (.choice (source.filtered filters placement?).root (source.filtered filters placement?).root
        (.text tag))

/-- The variables that a directive binds in the rest of the document. -/
def Occurrence.assigned (o : Occurrence) : List String :=
  match o.directive, o.call.identifier? with
  | .use, name? => [name?.getD "useBean"]
  | .set, some name => [name]
  | .test, some name => [name]
  | _, _ => []

variable {κ : Type} {D : Discipline κ} {known : Set κ} {filters : Pipeline}
  {Good : Expression → Prop}

/-- A discipline that allows the names and values of the walk, if its expressions have a property
that all expressions in texts have. -/
structure Discipline.Suits (D : Discipline κ) (filters : Pipeline) (Good : Expression → Prop) :
    Prop where
  expression : ∀ {here text fragments}, Fragment.parse here text = .ok fragments →
    ∀ {e place}, .expression e place ∈ fragments → Good e
  /-- A value may be bound where the root of its expression has been checked. -/
  value : ∀ {source placement? value known}, Good source.expression →
    Written.Makes filters placement? source value →
      D.checked (source.filtered filters placement?).root source.location ⊆ known →
        D.Value known value source.location
  /-- The status of a loop may be bound where its variables are declared. -/
  status : ∀ {m n known here}, D.declared (Session.symbol m) ⊆ known →
    D.declared (Session.symbol n) ⊆ known → D.Value known
      (.call "listStatus" [.identifier (Session.symbol n), .identifier (Session.symbol m)]) here
  variable_declared : ∀ {name known}, D.Name name → D.declared name ⊆ known → D.Variable known name
  variable_bound : ∀ {name known}, D.Global name → D.bound name ⊆ known → D.Variable known name
  symbol : ∀ n, D.Name (Session.symbol n)
  item : D.Name "item"
  status_name : ∀ {name}, D.Name name → D.Name (name ++ "List")

/-! ### Text with expressions -/

theorem admits_draftMalformed (error : ExpressionError) : D.Admits known (draftMalformed error) :=
  .report _ _ rfl

section Fragments

variable (hD : D.Suits filters Good)

include hD

/-- Inside the block that declares it, a made name may be referred to. -/
theorem Discipline.Suits.variable_symbol {n : Nat} {header : Header}
    (h : Session.symbol n ∈ header.declaredNames) :
    D.Variable (known ∪ D.inside header) (Session.symbol n) :=
  hD.variable_declared (hD.symbol n) (declared_subset Set.subset_union_right h)

theorem Fragment.admits_draft (placement? : Option Placement) {fragment : Fragment}
    (h : ∀ e here, fragment = .expression e here → Good e) :
    D.Admits known (fragment.draft filters placement?) := by
  cases fragment with
  | text literal => exact .text literal
  | expression e here =>
    let source : Written := ⟨e, here⟩
    have hcheck : D.Keeps known (source.checkIn filters placement?) ∧
        D.checked (source.filtered filters (placement?.getD .text)).root here ⊆
          D.knownAfter known (source.checkIn filters placement?) := by
      cases placement? with
      | none => exact ⟨⟨trivial, trivial, trivial⟩, Set.subset_union_right⟩
      | some placement => exact ⟨⟨trivial, trivial⟩, Set.subset_union_right⟩
    refine (Admits.write hcheck.1).bind_value fun _ => .bind_fresh fun n => ?_
    have hvalue : D.Value _ _ source.location := hD.value (h e here rfl) .root hcheck.2
    exact .within ⟨hD.symbol n, hvalue⟩
      (.outVariable (hD.variable_symbol (List.mem_singleton.2 rfl)))

/-- The fragments of a text that is read. -/
theorem admits_fragments {here : Location} {text : String} {fragments : List Fragment}
    (h : Fragment.parse here text = .ok fragments) (placement? : Option Placement) :
    D.Admits known (fragments.forM (Fragment.draft filters placement?)) :=
  .forM fragments fun _ hmem => Fragment.admits_draft hD placement? fun _ _ heq =>
    hD.expression h (heq ▸ hmem)

theorem admits_draftInterpolated (text : String) (here : Location)
    (placement? : Option Placement) :
    D.Admits known (draftInterpolated filters text here placement?) := by
  unfold draftInterpolated
  cases hparse : Fragment.parse here text with
  | ok fragments => exact admits_fragments hD hparse placement?
  | error error => exact (admits_draftMalformed error).bind fun _ => .text _

namespace Markup

theorem admits_draftDynamicAttribute (name : String) {source : Written}
    (h : Good source.expression) (quote : String) :
    D.Admits known (draftDynamicAttribute filters name source quote) := by
  have hcheck : D.Admits known (.say (source.check filters (some (.ofAttribute name)))) :=
    .say trivial
  refine hcheck.bind_value fun _ => .bind_fresh fun n => ?_
  have hself : Session.symbol n ∈ [Session.symbol n] := List.mem_singleton.2 rfl
  refine .within ⟨hD.symbol n, hD.value h .root Set.subset_union_right⟩
    (.within (hD.variable_symbol hself) ?_)
  refine (Admits.text _).bind fun _ => (Admits.outVariable ?_).bind fun _ => .text _
  exact D.variable_mono Set.subset_union_left (hD.variable_symbol hself)

theorem admits_draftLiteralAttribute (name text : String) (here : Location) (quote : String) :
    D.Admits known (draftLiteralAttribute filters name text here quote) := by
  unfold draftLiteralAttribute
  split
  · next error _ => exact (admits_draftMalformed error).bind fun _ => .text _
  · next e place hparse =>
    exact admits_draftDynamicAttribute hD name (hD.expression hparse List.mem_cons_self) quote
  · next fragments _ hparse =>
    exact (Admits.text _).bind fun _ => (admits_fragments hD hparse _).bind fun _ => .text _

theorem Attribute.admits_draft {attr : Attribute}
    (h : ∀ call e, attr.value = .directive call e → Good e) :
    D.Admits known (attr.draft filters) := by
  unfold Attribute.draft
  cases hvalue : attr.value with
  | absent => exact .text _
  | literal text => exact admits_draftLiteralAttribute hD _ _ _ _
  | directive call e => exact admits_draftDynamicAttribute hD _ (h call e hvalue) _

end Markup

end Fragments

/-! ### Directives -/

/-- An invocation keeps to the rules: in the tags and around the content with what its blocks around
the element add, elsewhere with what it adds just there. -/
structure Invocation.Keeps (D : Discipline κ) (filters : Pipeline) (tag : String) (i : Invocation) :
    Prop where
  elementOpening : ∀ known, D.Keeps known (i.elementOpening filters) := by
    intros; trivial
  elementHeaders : ∀ known, D.OpensAll (D.knownAfter known (i.elementOpening filters))
      (i.elementHeaders filters tag) := by
    intros; trivial
  attributeScript : ∀ known, D.Keeps known (i.attributeScript filters) := by
    intros; trivial
  contentOpening : ∀ known, D.Keeps known (i.contentOpening filters) := by
    intros; trivial
  contentHeaders : ∀ known, (∀ header ∈ i.elementHeaders filters tag, D.inside header ⊆ known) →
      D.OpensAll (D.knownAfter known (i.contentOpening filters)) i.contentHeaders := by
    intros; trivial
  tagVariable : ∀ name, i.effect.tagVariable = some name → ∀ known,
      (∀ header ∈ i.elementHeaders filters tag, D.inside header ⊆ known) →
        D.Variable known name := by
    intro name h; cases h
  skip : ∀ name, i.effect.skip = .when name → ∀ known,
      (∀ header ∈ i.elementHeaders filters tag, D.inside header ⊆ known) →
        D.Variable known name := by
    intro name h; cases h

/-- The names that a directive gives are allowed. -/
structure Occurrence.Named (D : Discipline κ) (o : Occurrence) : Prop where
  arguments : ∀ argument ∈ o.call.arguments, D.Name argument
  parameters : ∀ parameter ∈ o.source.expression.options.names, D.Name parameter
  assigned : ∀ name ∈ o.assigned, D.Global name

namespace Occurrence

variable {o : Occurrence} {tag : String}

/-- The blocks of a loop over a variable with a made name. -/
theorem Named.opensAll_headers (hD : D.Suits filters Good) (ho : o.Named D) (n : Nat)
    (hlist : D.declared (Session.symbol n) ⊆ known) (here : Location) :
    D.OpensAll known (((Directive.draftLoopNames o.call).value n).headers here) := by
  have hitem : D.Name (o.call.identifier?.getD "item") := by
    cases hname : o.call.identifier? with
    | none => exact hD.item
    | some name => exact ho.arguments name (List.mem_of_head? hname)
  refine ⟨⟨hD.variable_declared (hD.symbol n) hlist, hitem, hD.symbol (n + 1)⟩, ?_, trivial⟩
  refine ⟨hD.status_name hitem, hD.status (Set.Subset.trans hlist Set.subset_union_left) ?_⟩
  exact declared_subset Set.subset_union_right (List.mem_cons_of_mem _ List.mem_cons_self)

/-- The invocation of a directive keeps to the rules. -/
theorem keeps_invocation (hD : D.Suits filters Good) (hprobe : o.directive.isProbe = false)
    (hgood : Good o.source.expression) (ho : o.Named D) (n : Nat) :
    (o.invocation.value n).Keeps D filters tag := by
  have hloop (known : Set κ) (hlist : D.declared (Session.symbol n) ⊆ known) :=
    ho.opensAll_headers hD n hlist o.source.location
  obtain ⟨directive, ⟨label, arguments⟩, source⟩ := o
  -- Every directive checks the root of its expression first, and binds what is made of it.
  have hvalue {placement? : Option Placement} {value : Term} (known : Set κ)
      (hmakes : source.Makes filters placement? value) :=
    hD.value hgood hmakes (Set.subset_union_right (s := known))
  have hname := hD.symbol n
  have hheld {known : Set κ} {header : Header} (h : Session.symbol n ∈ header.declaredNames) :
      D.Variable (known ∪ D.inside header) (Session.symbol n) := hD.variable_symbol h
  have hself : Session.symbol n ∈ [Session.symbol n] := List.mem_singleton.2 rfl
  -- The blocks around an element are around its tags and its content, too.
  have hown {kind : DeclarationKind} {value : Term} {rest : List Header} {known : Set κ}
      (h : ∀ header ∈ .binding kind (Session.symbol n) value source.location :: rest,
        D.inside header ⊆ known) : D.declared (Session.symbol n) ⊆ known :=
    declared_subset (h (.binding kind _ value source.location) List.mem_cons_self) hself
  cases directive with
  | probe => cases hprobe
  | use =>
    exact { elementOpening := fun known =>
              ⟨trivial, ⟨ho.assigned _ List.mem_cons_self, hvalue known (.handed (by decide))⟩,
                trivial⟩ }
  | set =>
    cases arguments with
    | nil => exact {}
    | cons first rest =>
      exact { elementOpening := fun known =>
                ⟨trivial, ⟨ho.assigned first List.mem_cons_self, hvalue known .root⟩, trivial⟩ }
  | test =>
    cases arguments with
    | nil =>
      exact
        { elementOpening := fun _ => ⟨trivial, trivial⟩
          elementHeaders := fun known =>
            ⟨⟨hname, hvalue known .root⟩, hheld hself, trivial⟩ }
    | cons first rest =>
      have hfirst := ho.assigned first List.mem_cons_self
      exact
        { elementOpening := fun known => ⟨trivial, ⟨hfirst, hvalue known .root⟩, trivial⟩
          elementHeaders := fun _ =>
            ⟨hD.variable_bound hfirst Set.subset_union_right, trivial⟩ }
  | list =>
    exact
      { elementOpening := fun _ => ⟨trivial, trivial⟩
        elementHeaders := fun known => ⟨⟨hname, hvalue known .root⟩, hheld hself, trivial⟩
        contentHeaders := fun known h => hloop known (hown h) }
  | repeated =>
    exact
      { elementOpening := fun _ => ⟨trivial, trivial⟩
        elementHeaders := fun known =>
          ⟨⟨hname, hvalue known .root⟩, hloop _ (declared_subset Set.subset_union_right hself)⟩ }
  | template =>
    cases arguments with
    | nil => exact {}
    | cons first rest =>
      rw [invocation, Directive.value_draft_template source n rfl]
      exact { elementHeaders := fun _ =>
                ⟨⟨ho.arguments first List.mem_cons_self, ho.parameters⟩, trivial⟩ }
  | call =>
    have hother : Session.symbol (n + 1) ∈ [Session.symbol (n + 1)] := List.mem_singleton.2 rfl
    exact
      { contentOpening := fun known =>
          ⟨trivial, ⟨hname, hvalue known .root⟩,
            ⟨⟨hD.symbol (n + 1), D.value_mono Set.subset_union_left (hvalue known .options)⟩,
              ⟨⟨D.variable_mono Set.subset_union_left (hheld hself), hD.variable_symbol hother⟩,
                trivial⟩, trivial⟩, trivial⟩ }
  | insertion =>
    exact { contentOpening := fun known =>
              ⟨trivial, ⟨hname, hvalue known (.handed (by decide))⟩, ⟨hheld hself, trivial⟩,
                trivial⟩ }
  | resource =>
    exact { contentOpening := fun known =>
              ⟨trivial, ⟨hname, hvalue known (.handed (by decide))⟩, ⟨hheld hself, trivial⟩,
                trivial⟩ }
  | text =>
    exact { contentOpening := fun known =>
              ⟨trivial, trivial, ⟨hname, hvalue _ .root⟩, ⟨hheld hself, trivial⟩, trivial⟩ }
  | attr =>
    cases arguments with
    | nil =>
      exact { attributeScript := fun known =>
                ⟨trivial, ⟨hname, hvalue known .attributes⟩, ⟨hheld hself, trivial⟩, trivial⟩ }
    | cons target rest =>
      exact
        { attributeScript := fun known => by
            refine ⟨trivial, ⟨hname, hvalue known .root⟩, ⟨hheld hself, ?_, trivial⟩, trivial⟩
            refine ⟨trivial, D.variable_mono Set.subset_union_left ?_, trivial, trivial⟩
            exact D.variable_mono Set.subset_union_left (hheld hself) }
  | element =>
    exact
      { elementOpening := fun _ => ⟨trivial, trivial⟩
        elementHeaders := fun known => ⟨⟨hname, hvalue known (.choice tag)⟩, trivial⟩
        tagVariable := fun name h known hinside =>
          Option.some.inj h ▸ hD.variable_declared hname (hown hinside) }
  | unwrap =>
    rw [invocation, Directive.value_draft_unwrap]
    split
    · exact {}
    · exact
        { elementOpening := fun _ => ⟨trivial, trivial⟩
          elementHeaders := fun known => ⟨⟨hname, hvalue known .root⟩, trivial⟩
          skip := fun name h known hinside =>
            TagSkip.when.inj h ▸ hD.variable_declared hname (hown hinside) }

end Occurrence

/-! ### The making of invocations -/

/-- Preparations keep to all rules. -/
theorem Discipline.keeps_of_prepares {k : Script} (h : k.prepares = true) (known : Set κ) :
    D.Keeps known k := by
  induction k generalizing known with
  | done => trivial
  | statement x next ih =>
    obtain ⟨hx, hnext⟩ := Bool.and_eq_true_iff.1 h
    refine ⟨?_, ih hnext _⟩
    cases x with
    | report severity here finding => exact Bool.not_eq_eq_eq_not.1 hx
    | _ => trivial
  | block => cases h

namespace Effect

variable {effects : List Effect} {name : String}

theorem exists_tagVariable (h : (all effects).tagVariable = some name) :
    ∃ effect ∈ effects, effect.tagVariable = some name := by
  induction effects with
  | nil => cases h
  | cons effect rest ih =>
    rcases Option.or_eq_some_iff.1 h with hfirst | ⟨-, hrest⟩
    · exact ⟨effect, List.mem_cons_self, hfirst⟩
    · obtain ⟨other, hother, hname⟩ := ih hrest
      exact ⟨other, List.mem_cons_of_mem _ hother, hname⟩

theorem exists_skip (h : (all effects).skip = .when name) :
    ∃ effect ∈ effects, effect.skip = .when name := by
  have hor {first second : TagSkip} (h : first.or second = .when name) :
      first = .when name ∨ second = .when name := by
    cases first <;> cases second <;> simp_all [TagSkip.or]
  induction effects with
  | nil => cases h
  | cons effect rest ih =>
    rcases hor h with hfirst | hrest
    · exact ⟨effect, List.mem_cons_self, hfirst⟩
    · obtain ⟨other, hother, hname⟩ := ih hrest
      exact ⟨other, List.mem_cons_of_mem _ hother, hname⟩

end Effect

namespace Markup

variable {registry : Registry} {tag : Tag} {invocations : List Invocation} {effect : Effect}

theorem admits_draftInvocations (attributes : List Attribute) :
    D.Admits known (draftInvocations registry attributes) :=
  ⟨fun n => keeps_of_prepares (prepares_draftInvocations attributes n) known⟩

/-! ### Elements -/

/-- The tags and the content of an element know what the blocks around it add. -/
def KnowsAll (D : Discipline κ) (filters : Pipeline) (tag : Tag) (invocations : List Invocation)
    (known : Set κ) : Prop :=
  ∀ i ∈ invocations, ∀ header ∈ i.elementHeaders filters tag.name, D.inside header ⊆ known

theorem admits_draftTagName (heffect : effect = Effect.all (invocations.map Invocation.effect))
    (hinvocations : ∀ i ∈ invocations, i.Keeps D filters tag.name)
    (hknown : KnowsAll D filters tag invocations known) :
    D.Admits known (draftTagName tag.name effect) := by
  unfold draftTagName
  cases hvariable : effect.tagVariable with
  | none => exact .text _
  | some held =>
    rw [heffect] at hvariable
    obtain ⟨other, hother, hheld⟩ := Effect.exists_tagVariable hvariable
    obtain ⟨i, hi, rfl⟩ := List.mem_map.1 hother
    exact .outVariable ((hinvocations i hi).tagVariable held hheld known (hknown i hi))

theorem admits_unlessSkipped {skip : TagSkip}
    (hskip : ∀ name, skip = .when name → D.Variable known name) {d : Draft Unit}
    (hd : ∀ more, known ⊆ more → D.Admits more d) :
    D.Admits known (.around .done (skipHeaders skip) d) := by
  refine .around trivial ?_ fun more hsub _ => hd more hsub
  cases skip with
  | when name => exact ⟨hskip name rfl, trivial⟩
  | _ => trivial

/-- The tags and the content of an element. -/
theorem admits_draftTags (hD : D.Suits filters Good)
    (htag : ∀ attr ∈ tag.attributes, ∀ call e, attr.value = .directive call e → Good e)
    (hinvocations : ∀ i ∈ invocations, i.Keeps D filters tag.name)
    (hknown : KnowsAll D filters tag invocations known) {d : Draft Unit}
    (hd : ∀ known, D.Admits known d) :
    D.Admits known (draftTags filters registry tag invocations d) := by
  unfold draftTags
  generalize heffect : Effect.all (invocations.map Invocation.effect) = effect
  dsimp only
  generalize hskip : (if isBareElement tag.name then TagSkip.always else effect.skip) = skip
  have hmore {more : Set κ} (hsub : known ⊆ more) : KnowsAll D filters tag invocations more :=
    fun i hi header hheader => Set.Subset.trans (hknown i hi header hheader) hsub
  have hwhen : ∀ name, skip = .when name → D.Variable known name := by
    rintro name rfl
    -- A condition comes from an invocation: an element without tags has none.
    have hname : effect.skip = .when name := by
      split at hskip
      · cases hskip
      · exact hskip
    rw [← heffect] at hname
    obtain ⟨other, hother, hname⟩ := Effect.exists_skip hname
    obtain ⟨i, hi, rfl⟩ := List.mem_map.1 hother
    exact (hinvocations i hi).skip name hname known (hknown i hi)
  have hstart : D.Admits known (draftStartTag filters registry tag invocations effect skip) := by
    refine admits_unlessSkipped hwhen fun more hsub => (Admits.text _).bind fun _ =>
      (admits_draftTagName heffect.symm hinvocations (hmore hsub)).bind fun _ => ?_
    refine (Admits.forM _ fun attr hattr => ?_).bind fun _ =>
      (Admits.forM _ fun i hi => ?_).bind fun _ => .text _
    · exact attr.admits_draft hD (htag attr (List.mem_filter.1 hattr).1)
    · exact .write ((hinvocations i hi).attributeScript more)
  have hend : D.Admits known (draftEndTag tag effect skip) :=
    admits_unlessSkipped hwhen fun more hsub => (Admits.text _).bind fun _ =>
      (admits_draftTagName heffect.symm hinvocations (hmore hsub)).bind fun _ => .text _
  have hcontent : D.Admits known (Invocation.aroundContent filters invocations
      (if effect.replaces then pure () else d)) := by
    refine .aroundAll invocations ?_ ?_ fun more _ _ => ?_
    · exact fun i hi more _ => (hinvocations i hi).contentOpening more
    · exact fun i hi more hsub => (hinvocations i hi).contentHeaders more (hmore hsub i hi)
    · split
      · exact .pure ()
      · exact hd more
  refine Admits.bind ?_ fun _ => hcontent.bind fun _ => ?_
  · split
    · exact hstart
    · exact .pure ()
  · split
    · exact hend
    · exact .pure ()

/-- The expressions and the names of the directives on a tag are allowed. -/
structure Tag.Suits (D : Discipline κ) (Good : Expression → Prop) (registry : Registry)
    (tag : Tag) : Prop where
  expression : ∀ attr ∈ tag.attributes, ∀ call e, attr.value = .directive call e → Good e
  named : ∀ o ∈ Markup.occurrences registry tag.attributes, o.Named D

theorem Tag.Suits.source (h : tag.Suits D Good registry) {o : Occurrence}
    (ho : o ∈ Markup.occurrences registry tag.attributes) : Good o.source.expression := by
  obtain ⟨attr, hattr, ho⟩ := List.mem_filterMap.1 ho
  split at ho
  · next call e hvalue =>
    obtain ⟨directive, -, rfl⟩ := Option.map_eq_some_iff.1 ho
    exact h.expression attr hattr call e hvalue
  · cases ho

/-- An element keeps to the rules, if its content does. -/
theorem admits_draftElement (hD : D.Suits filters Good) (hregistry : registry.Unmarked)
    (htag : tag.Suits D Good registry) {d : Draft Unit} (hd : ∀ known, D.Admits known d) :
    D.Admits known (draftElement filters registry tag d) := by
  refine (admits_draftInvocations tag.attributes).bind_value fun n => ?_
  simp only [sort_draftInvocations]
  have hinvocations : ∀ i ∈ Occurrence.invocations (Priority.sort (·.1.directive.priority)
      (Occurrence.numbered n (occurrences registry tag.attributes))),
        i.Keeps D filters tag.name := by
    intro i hi
    obtain ⟨⟨o, m⟩, ho, rfl⟩ := List.mem_map.1 hi
    have hmem : o ∈ occurrences registry tag.attributes := by
      rw [← Occurrence.map_fst_numbered n (occurrences registry tag.attributes)]
      exact List.mem_map_of_mem ((Priority.sort_perm _).mem_iff.1 ho)
    exact Occurrence.keeps_invocation hD (isProbe_of_mem_occurrences hregistry _ o hmem)
      (htag.source hmem) (htag.named o hmem) m
  generalize Occurrence.invocations _ = invocations at hinvocations ⊢
  have hinside (known : Set κ) : D.Admits known (Invocation.aroundElement filters tag.name
      invocations (draftTags filters registry tag invocations d)) := by
    refine .aroundAll invocations ?_ ?_ fun more _ hown => ?_
    · exact fun i hi more _ => (hinvocations i hi).elementOpening more
    · exact fun i hi more _ => (hinvocations i hi).elementHeaders more
    · exact admits_draftTags hD htag.expression hinvocations hown hd
  split
  · exact .around trivial ⟨trivial, trivial⟩ fun more _ _ => hinside more
  · exact .around trivial trivial fun more _ _ => hinside more

theorem admits_draftComment (hD : D.Suits filters Good) (text : String) (here : Location) :
    D.Admits known (draftComment filters text here) := by
  unfold draftComment
  split
  · exact .pure ()
  · exact (Admits.text _).bind fun _ =>
      (admits_draftInterpolated hD _ _ _).bind fun _ => .text _

mutual

theorem Node.admits_draft (hD : D.Suits filters Good) (hregistry : registry.Unmarked) :
    ∀ node : Node, (∀ tag ∈ node.tags, tag.Suits D Good registry) → ∀ known,
      D.Admits known (node.draft filters registry)
  | .text text here, _, _ => by
    rw [Node.draft]
    exact admits_draftInterpolated hD text here none
  | .comment text here, _, _ => by
    rw [Node.draft]
    exact admits_draftComment hD text here
  | .element tag children, h, _ => by
    rw [Node.tags, List.forall_mem_cons] at h
    rw [Node.draft]
    exact admits_draftElement hD hregistry h.1 (admits_draftAll hD hregistry children h.2)

theorem admits_draftAll (hD : D.Suits filters Good) (hregistry : registry.Unmarked) :
    ∀ nodes : List Node, (∀ tag ∈ tagsOf nodes, tag.Suits D Good registry) → ∀ known,
      D.Admits known (draftAll filters registry nodes)
  | [], _, _ => by
    rw [draftAll]
    exact .pure ()
  | node :: rest, h, known => by
    rw [tagsOf, List.forall_mem_append] at h
    rw [draftAll]
    exact (Node.admits_draft hD hregistry node h.1 known).bind fun _ =>
      admits_draftAll hD hregistry rest h.2 known

end

/-- The script of a template keeps to every discipline that suits its tags. -/
theorem Template.admits_draft (hD : D.Suits filters Good) (hregistry : registry.Unmarked)
    {template : Template} (h : ∀ tag ∈ template.tags, tag.Suits D Good registry) (known : Set κ) :
    D.Admits known (template.draft filters registry) :=
  admits_draftAll hD hregistry template.children h known

end Markup

end Stencil
