import Stencil.Proofs.Draft
import Stencil.Proofs.PrioritySort

/-!
# The walk does what its script does

For directives that leave no marks, the walk over a template and the script of the template do the
same to every session. So the walk never fails, and what holds of every script holds of the walk.

The argument goes along the definitions. Its one idea is in `Follows.aroundAll`: the hooks before an
element or its content are taken in one order and those after it in the reverse order, which makes
blocks of what they open and close.

## Main definitions

* `Follows`: a part of the walk does what a draft says
* `Opens`: a part of the walk does what a script says, and then begins blocks

## Main results

* `Follows.around`, `Follows.aroundAll`: opening and closing in reverse order makes blocks
* `Markup.Template.follows_emit`: the walk over a template follows its draft
-/

namespace Stencil

variable {α β : Type} {filters : Pipeline}

/-- On every session with these filters and a proper scope, `m` succeeds with the result of the
draft and does what the script of the draft does. -/
structure Follows (filters : Pipeline) (m : Emit α) (d : Draft α) : Prop where
  run : ∀ s : Session, s.setup.filters = filters → s.scope.Proper →
    m.run s = .ok (d.value s.symbols) ((d.script s.symbols).play s)

namespace Follows

variable {m : Emit α} {d : Draft α}

theorem pure (a : α) : Follows filters (Pure.pure a) (Pure.pure a) := ⟨fun _ _ _ => rfl⟩

/-- What comes after has to follow for the results that the draft can have. -/
theorem bind_value {f : α → Emit β} {g : α → Draft β} (hm : Follows filters m d)
    (hf : ∀ n, Follows filters (f (d.value n)) (g (d.value n))) :
    Follows filters (m >>= f) (d >>= g) := by
  refine ⟨fun s hfilters hproper => ?_⟩
  have hlevel := (d.script s.symbols).level_play s
  have hnext := (hf s.symbols).run _ ((congrArg Setup.filters hlevel.setup).trans hfilters)
    (hlevel.scope ▸ hproper)
  rw [EStateM.run_bind, hm.run s hfilters hproper]
  simp only
  rw [hnext, Script.symbols_play, Draft.value_bind, Draft.script_bind, Script.play_append]

theorem bind {f : α → Emit β} {g : α → Draft β} (hm : Follows filters m d)
    (hf : ∀ a, Follows filters (f a) (g a)) : Follows filters (m >>= f) (d >>= g) :=
  hm.bind_value fun _ => hf _

theorem write (k : Script) : Follows filters (modify k.play) (.write k) :=
  ⟨fun _ _ _ => rfl⟩

theorem say (x : Statement) : Follows filters (modify x.run) (.say x) :=
  ⟨fun _ _ _ => rfl⟩

theorem fresh : Follows filters (modifyGet Session.generate) .fresh :=
  ⟨fun _ _ _ => rfl⟩

theorem within (header : Header) {m : Emit Unit} {d : Draft Unit} (hm : Follows filters m d) :
    Follows filters (do modify header.enter; m; header.leave) (.within header d) := by
  refine ⟨fun s hfilters hproper => ?_⟩
  have hinside := hm.run (header.enter s)
    ((congrArg Setup.filters (header.setup_enter s)).trans hfilters) (header.proper_enter hproper)
  rw [header.symbols_enter] at hinside
  have hleave := header.run_leave hproper ((d.script s.symbols).level_play (header.enter s))
  rw [EStateM.run_bind, EStateM.run_modify]
  simp only [EStateM.run_bind]
  rw [hinside]
  simp only
  rw [hleave]
  rfl

theorem forM {γ : Type} {f : γ → Emit Unit} {g : γ → Draft Unit} (items : List γ)
    (h : ∀ a ∈ items, Follows filters (f a) (g a)) :
    Follows filters (items.forM f) (items.forM g) := by
  induction items with
  | nil => exact pure ()
  | cons a rest ih =>
    simp only [List.forM_eq_forM, List.forM_cons] at ih ⊢
    exact (h a List.mem_cons_self).bind fun _ => ih fun b hb => h b (List.mem_cons_of_mem _ hb)

end Follows

/-- On every session with these filters and a proper scope, `m` does what a script does and then
begins blocks, the outermost first. -/
structure Opens (filters : Pipeline) (m : Emit Unit) (opening : Script) (headers : List Header) :
    Prop where
  run : ∀ s : Session, s.setup.filters = filters → s.scope.Proper →
    m.run s = .ok () (headers.foldl (fun s header => header.enter s) (opening.play s))

namespace Follows

variable {m : Emit Unit} {d : Draft Unit}

theorem opens {k : Script} (hm : Follows filters m (.write k)) : Opens filters m k [] := ⟨hm.run⟩

/-- Blocks that are begun in one order and ended in the reverse order. -/
theorem foldr_within (headers : List Header) (hm : Follows filters m d) :
    Follows filters
      (do headers.forM (fun header => modify header.enter); m; headers.reverse.forM Header.leave)
      (headers.foldr .within d) := by
  induction headers with
  | nil => simpa using hm
  | cons header rest ih =>
    have hblock := ih.within header
    simpa only [List.forM_eq_forM, List.forM_cons, List.reverse_cons, List.forM_append,
      List.forM_nil, bind_assoc, bind_pure_unit, List.foldr_cons] using hblock

theorem run_forM_enter (headers : List Header) (s : Session) :
    (headers.forM fun header => (modify header.enter : Emit Unit)).run s =
      .ok () (headers.foldl (fun s header => header.enter s) s) := by
  induction headers generalizing s with
  | nil => rfl
  | cons header rest ih =>
    rw [List.forM_eq_forM, List.forM_cons, EStateM.run_bind]
    exact ih _

/-- What opens blocks, `m`, and what ends these blocks again. -/
theorem around {opening : Script} {headers : List Header} {first last : Emit Unit}
    (hopen : Opens filters first opening headers)
    (hclose : last = headers.reverse.forM Header.leave) (hm : Follows filters m d) :
    Follows filters (do first; m; last) (.around opening headers d) := by
  have hwhole : Follows filters _ (.around opening headers d) :=
    (write opening).bind fun _ => hm.foldr_within headers
  refine ⟨fun s hfilters hproper => Eq.trans ?_ (hwhole.run s hfilters hproper)⟩
  simp only [EStateM.run_bind, hopen.run s hfilters hproper, EStateM.run_modify, run_forM_enter,
    hclose]

/-- Items each of which opens blocks and ends them; all of them open in order, and end in the
reverse order. -/
theorem aroundAll {γ : Type} {first last : γ → Emit Unit} {opening : γ → Script}
    {headers : γ → List Header} (items : List γ)
    (hopen : ∀ a ∈ items, Opens filters (first a) (opening a) (headers a))
    (hclose : ∀ a ∈ items, last a = (headers a).reverse.forM Header.leave)
    (hm : Follows filters m d) :
    Follows filters (do items.forM first; m; items.reverse.forM last)
      (items.foldr (fun a => .around (opening a) (headers a)) d) := by
  induction items with
  | nil => simpa using hm
  | cons a rest ih =>
    -- The first item opens before all others and ends after them.
    have hrest := ih (fun b hb => hopen b (List.mem_cons_of_mem _ hb))
      fun b hb => hclose b (List.mem_cons_of_mem _ hb)
    have hall := around (hopen a List.mem_cons_self) (hclose a List.mem_cons_self) hrest
    simpa only [List.forM_eq_forM, List.forM_cons, List.reverse_cons, List.forM_append,
      List.forM_nil, bind_assoc, bind_pure_unit, List.foldr_cons] using hall

end Follows

/-! ### Text with expressions -/

namespace Written

theorem follows_transform (source : Written) (placement? : Option Placement) :
    Follows filters (source.transform placement?)
      (do
        Draft.say (source.check filters placement?)
        return source.filtered filters placement?) := by
  refine ⟨fun s hfilters _ => ?_⟩
  subst hfilters
  rfl

theorem follows_transformText (source : Written) :
    Follows filters (modifyGet (Session.transformText source.expression source.location))
      (do
        Draft.write (source.checkIn filters none)
        return source.filtered filters (some .text)) := by
  refine ⟨fun s hfilters _ => ?_⟩
  subst hfilters
  have hplay : ((source.checkIn s.setup.filters none).play s) =
      (s.transformText source.expression source.location).2 := by
    simp only [Written.checkIn, Script.play, Statement.run, Session.transformText,
      Session.transform, Written.check, Written.filtered]
    split <;> rfl
  have hvalue : source.filtered s.setup.filters (some .text) =
      (s.transformText source.expression source.location).1 := by
    simp only [Session.transformText, Session.transform, Written.filtered]
    split <;> rfl
  rw [EStateM.run_modifyGet, ← hplay, ← hvalue]
  simp

theorem follows_transformIn (source : Written) (placement? : Option Placement) :
    Follows filters (source.transformIn placement?)
      (do
        Draft.write (source.checkIn filters placement?)
        return source.filtered filters (placement?.getD .text)) := by
  cases placement? with
  | some placement => exact source.follows_transform (some placement)
  | none => exact source.follows_transformText

end Written

/-- A new name bound to a term. -/
theorem bindTemporary_eq (value : Term) (here : Location) :
    (modifyGet (Session.bindTemporary value here) : Emit String) = do
      let name ← modifyGet Session.generate
      modify (Header.binding .temporary name value here).enter
      return name := rfl

theorem Fragment.follows_emit (placement? : Option Placement) (fragment : Fragment) :
    Follows filters (fragment.emit placement?) (fragment.draft filters placement?) := by
  cases fragment with
  | text literal => exact .say (.outText literal)
  | expression e here =>
    have hblock (name : String) (value : Term) : Follows filters _ _ :=
      (Follows.say (.outVariable name)).within (.binding .temporary name value here)
    have hall : Follows filters _ _ :=
      (Written.follows_transformIn ⟨e, here⟩ placement?).bind fun value =>
        Follows.fresh.bind fun name => hblock name value.root
    simp only [Fragment.emit, Fragment.draft, bindTemporary_eq, bind_assoc, pure_bind] at hall ⊢
    exact hall

theorem follows_reportMalformed (error : ExpressionError) :
    Follows filters (reportMalformed error) (draftMalformed error) :=
  .say (.report .error error.location (.malformed error.fault))

theorem follows_emitInterpolated (text : String) (here : Location) (placement? : Option Placement) :
    Follows filters (emitInterpolated text here placement?)
      (draftInterpolated filters text here placement?) := by
  unfold emitInterpolated draftInterpolated
  cases Fragment.parse here text with
  | ok fragments =>
    exact .forM fragments fun fragment _ => fragment.follows_emit placement?
  | error error => exact (follows_reportMalformed error).bind fun _ => .say (.outText text)

namespace Markup

/-! ### Attributes -/

theorem follows_emitDynamicAttribute (name : String) (source : Written) (quote : String) :
    Follows filters (emitDynamicAttribute name source quote)
      (draftDynamicAttribute filters name source quote) := by
  have hinside (held : String) : Follows filters _ _ :=
    ((Follows.say (.outText (" " ++ name ++ "=" ++ quote))).bind fun _ =>
      (Follows.say (.outVariable held)).bind fun _ => .say (.outText quote)).within
        (.conditional held true)
  have hall : Follows filters _ _ :=
    (source.follows_transform (some (.ofAttribute name))).bind fun value =>
      Follows.fresh.bind fun held =>
        (hinside held).within (.binding .temporary held value.root source.location)
  simp only [emitDynamicAttribute, draftDynamicAttribute, bindTemporary_eq, bind_assoc, pure_bind]
    at hall ⊢
  exact hall

theorem follows_emitLiteralAttribute (name text : String) (here : Location) (quote : String) :
    Follows filters (emitLiteralAttribute name text here quote)
      (draftLiteralAttribute filters name text here quote) := by
  have hparts (fragments : List Fragment) : Follows filters _ _ :=
    (Follows.say (.outText (" " ++ name ++ "=" ++ quote))).bind fun _ =>
      (Follows.forM fragments fun fragment _ =>
        fragment.follows_emit (some (.ofAttribute name))).bind fun _ => .say (.outText quote)
  unfold emitLiteralAttribute draftLiteralAttribute
  cases Fragment.parse here text with
  | error error => exact (follows_reportMalformed error).bind fun _ => .say (.outText _)
  | ok fragments =>
    -- A value that is one expression is told apart from all others.
    match fragments with
    | [.expression e place] => exact follows_emitDynamicAttribute name ⟨e, place⟩ quote
    | [] => exact hparts []
    | .text literal :: rest => exact hparts (.text literal :: rest)
    | .expression e place :: second :: rest => exact hparts (.expression e place :: second :: rest)

theorem Attribute.follows_emit (attr : Attribute) :
    Follows filters attr.emit (attr.draft filters) := by
  unfold Attribute.emit Attribute.draft
  cases attr.value with
  | absent => exact .say (.outText _)
  | literal text => exact follows_emitLiteralAttribute _ _ _ _
  | directive call e => exact follows_emitDynamicAttribute _ _ _

end Markup

/-! ### Directives -/

namespace Directive

variable (call : Markup.DirectiveCall) (source : Written)

theorem follows_requiredIdentifier (here : Location) :
    Follows filters (requiredIdentifier call here) (draftIdentifier call here) := by
  unfold requiredIdentifier draftIdentifier
  cases call.identifier? with
  | some name => exact .pure _
  | none => exact (Follows.say (.report .error here (.needsIdentifier call))).bind fun _ => .pure _

theorem follows_generate : Follows filters generate .fresh := .fresh

theorem follows_loopNames : Follows filters (loopNames call) (draftLoopNames call) :=
  follows_generate.bind fun _ => follows_generate.bind fun _ => .pure _

theorem follows_invokeTemplate :
    Follows filters (invokeTemplate call source) (draftTemplate call source) := by
  refine (follows_requiredIdentifier call source.location).bind fun name? => ?_
  cases name? with
  | none => exact .pure _
  | some name =>
    have hdeclare : Follows filters _ _ :=
      (Follows.say (.declareGlobal name source.location)).bind fun _ =>
        .pure (Invocation.template name source.expression.options.names source.location)
    by_cases hnull : source.expression.root.isNull = true
    · simp only [hnull, if_true]
      exact hdeclare
    · simp only [hnull]
      exact (Follows.say (.report .warning source.location (.ignoresExpression call))).bind fun _ =>
        hdeclare

/-- A directive that leaves no marks gives the invocation of its draft. -/
theorem follows_invoke {directive : Directive} (hprobe : directive.isProbe = false) :
    Follows filters (directive.invoke call source) (directive.draft call source) := by
  cases directive with
  | use => exact .pure _
  | set =>
    refine (follows_requiredIdentifier call source.location).bind fun name? => ?_
    cases name? with
    | none => exact .pure _
    | some name => exact .pure _
  | template => exact follows_invokeTemplate call source
  | test =>
    unfold invoke draft
    cases call.identifier? with
    | none => exact follows_generate.bind fun _ => .pure _
    | some name => exact .pure _
  | list => exact (follows_loopNames call).bind fun _ => .pure _
  | repeated => exact (follows_loopNames call).bind fun _ => .pure _
  | call => exact follows_generate.bind fun _ => follows_generate.bind fun _ => .pure _
  | unwrap =>
    unfold invoke draft
    by_cases hnull : source.expression.root.isNull = true
    · simpa only [hnull, if_true] using Follows.pure (Invocation.unwrap none)
    · simp only [hnull]
      exact follows_generate.bind fun _ => .pure _
  | probe => cases hprobe
  | _ => exact follows_generate.bind fun _ => .pure _

end Directive

/-! ### Hooks -/

namespace Invocation

variable {invocation : Invocation}

theorem opens_bindRoot (source : Written) (placement? : Option Placement) (name : String) :
    Opens filters (source.bindRoot placement? name)
      (.statement (source.check filters placement?) .done)
      [bindingOf filters placement? name source] := by
  refine ⟨fun s hfilters _ => ?_⟩
  subst hfilters
  rfl

theorem opens_enterLoop {m : Emit Unit} {opening : Script} {headers : List Header}
    (names : LoopNames) (here : Location) (hopens : Opens filters m opening headers) :
    Opens filters (do m; names.enter here) opening (headers ++ names.headers here) := by
  refine ⟨fun s hfilters hproper => ?_⟩
  have henter : names.enter here = (names.headers here).forM fun header => modify header.enter :=
    rfl
  rw [EStateM.run_bind, hopens.run s hfilters hproper, List.foldl_append, henter]
  exact Follows.run_forM_enter _ _

theorem opens_beforeElement (tag : String) (hprobe : invocation.isProbe = false) :
    Opens filters (invocation.run (.beforeElement tag)) (invocation.elementOpening filters)
      (invocation.elementHeaders filters tag) := by
  cases invocation with
  | repeated names source =>
    exact opens_enterLoop names source.location (opens_bindRoot source none names.list)
  | test name named source =>
    refine ⟨fun s hfilters _ => ?_⟩
    subst hfilters
    cases named <;> rfl
  | unwrap condition? =>
    cases condition? with
    | none => exact (Follows.pure ()).opens
    | some condition => exact opens_bindRoot condition.2 none condition.1
  | probe => cases hprobe
  | _ =>
    refine ⟨fun s hfilters _ => ?_⟩
    subst hfilters
    rfl

/-- What ends the blocks around an element, written out as the operations that end them. -/
theorem run_afterElement (tag : String) (hprobe : invocation.isProbe = false) :
    invocation.run .afterElement =
      (invocation.elementHeaders filters tag).reverse.forM Header.leave := by
  rw [List.forM_eq_forM]
  cases invocation with
  | test name named source =>
    cases named <;> simp [run, afterElement, elementHeaders, Header.leave, bindingOf]
  | unwrap condition? =>
    cases condition? <;> simp [run, afterElement, elementHeaders, Header.leave, bindingOf]
  | probe => cases hprobe
  | _ =>
    simp [run, afterElement, elementHeaders, Header.leave, bindingOf, LoopNames.headers,
      LoopNames.leave]

theorem follows_afterAttributes (hprobe : invocation.isProbe = false) :
    Follows filters (invocation.run .afterAttributes)
      (.write (invocation.attributeScript filters)) := by
  cases invocation with
  | attr target? name source =>
    cases target? with
    | some target =>
      have hinside : Follows filters _ _ :=
        ((Follows.say (.outText (" " ++ target ++ "=\""))).bind fun _ =>
          (Follows.say (.outVariable name)).bind fun _ => .say (.outText "\"")).within
            (.conditional name true)
      have hall : Follows filters _ _ :=
        (source.follows_transform (some (.ofAttribute target))).bind fun value =>
          hinside.within (.binding .bound name value.root source.location)
      simp only [bind_assoc, pure_bind] at hall
      simp only [run, afterAttributes, Written.bindRoot, bind_assoc]
      exact hall
    | none =>
      have hall : Follows filters _ _ :=
        (source.follows_transform none).bind fun value =>
          (Follows.say (.outVariable name)).within
            (.binding .bound name (.call "attributeMap" [value.root]) source.location)
      simp only [bind_assoc, pure_bind] at hall
      exact hall
  | probe => cases hprobe
  | _ => exact .pure ()

theorem opens_beforeChildren (hprobe : invocation.isProbe = false) :
    Opens filters (invocation.run .beforeChildren) (invocation.contentOpening filters)
      invocation.contentHeaders := by
  cases invocation with
  | list names source =>
    exact ⟨fun s _ _ => Follows.run_forM_enter (names.headers source.location) s⟩
  | call procedure arguments source =>
    have hall : Follows filters _ _ :=
      (source.follows_transform none).bind fun value =>
        ((Follows.say (.callProcedure procedure arguments)).within
          (.binding .bound arguments (.map value.options) source.location)).within
            (.binding .bound procedure value.root source.location)
    simp only [bind_assoc, pure_bind] at hall
    exact hall.opens
  | insertion function name source =>
    have hall : Follows filters _ _ :=
      (source.follows_transform none).bind fun value =>
        (Follows.say (.outVariable name)).within
          (.binding .bound name (.call function [value.root, .map value.options]) source.location)
    simp only [bind_assoc, pure_bind] at hall
    exact hall.opens
  | text name source =>
    have hall : Follows filters _ _ :=
      source.follows_transformText.bind fun value =>
        (Follows.say (.outVariable name)).within
          (.binding .bound name value.root source.location)
    simp only [bind_assoc, pure_bind] at hall
    exact hall.opens
  | probe => cases hprobe
  | _ => exact (Follows.pure ()).opens

theorem run_afterChildren (hprobe : invocation.isProbe = false) :
    invocation.run .afterChildren = invocation.contentHeaders.reverse.forM Header.leave := by
  rw [List.forM_eq_forM]
  cases invocation with
  | list names source =>
    simp [run, afterChildren, contentHeaders, Header.leave, LoopNames.headers, LoopNames.leave]
  | probe => cases hprobe
  | _ => rfl

end Invocation

namespace Directive

/-- A directive that leaves no marks gives an invocation that leaves none. -/
theorem isProbe_value_draft (directive : Directive) (call : Markup.DirectiveCall) (source : Written)
    (n : Nat) : ((directive.draft call source).value n).isProbe = false := by
  cases directive with
  | set =>
    simp only [draft, draftIdentifier]
    cases call.identifier? <;> rfl
  | template =>
    simp only [draft, draftTemplate, draftIdentifier]
    cases call.identifier? with
    | none => rfl
    | some name => simp only [pure_bind]; split <;> rfl
  | test =>
    simp only [draft]
    cases call.identifier? <;> rfl
  | unwrap =>
    simp only [draft]
    split <;> rfl
  | _ => rfl

end Directive

namespace Markup

variable {registry : Registry} {invocations : List Invocation}

theorem follows_invokeAll (hregistry : registry.Unmarked) (attributes : List Attribute) :
    Follows filters (invokeAll registry attributes) (draftInvocations registry attributes) := by
  induction attributes with
  | nil => exact .pure []
  | cons attr rest ih =>
    unfold invokeAll draftInvocations
    cases attr.value with
    | directive call e =>
      simp only
      cases hfind : registry.find? call.name with
      | some directive =>
        exact (Directive.follows_invoke call ⟨e, attr.location⟩ (hregistry _ _ hfind)).bind fun _ =>
          ih.bind fun _ => .pure _
      | none =>
        exact (Follows.say (.report .error attr.location (.unknownDirective call))).bind fun _ => ih
    | _ => exact ih

theorem isProbe_draftInvocations (attributes : List Attribute) (n : Nat) :
    ∀ found ∈ (draftInvocations registry attributes).value n, found.1.isProbe = false := by
  induction attributes generalizing n with
  | nil => simp [draftInvocations]
  | cons attr rest ih =>
    unfold draftInvocations
    cases attr.value with
    | directive call e =>
      simp only
      cases registry.find? call.name with
      | some directive =>
        intro found hfound
        rcases List.mem_cons.1 hfound with rfl | hfound
        · exact directive.isProbe_value_draft call ⟨e, attr.location⟩ n
        · exact ih _ found hfound
      | none => exact ih _
    | _ => exact ih n

/-- The invocations of an element are those of its directives, in order of priority. -/
theorem composed_foldl_addInvocation (found : List (Invocation × Int))
    (element : Element Invocation) (hnone : element.composed? = none) :
    (found.foldl (fun element (invocation, priority) =>
      element.addInvocation invocation priority) element).composed =
        (Priority.sort (·.2) (element.invocations ++ found)).map (·.1) := by
  induction found generalizing element with
  | nil => simp [Element.composed, hnone]
  | cons first rest ih =>
    obtain ⟨invocation, priority⟩ := first
    rw [List.foldl_cons, ih _ (by simp [Element.addInvocation, hnone])]
    simp [Element.addInvocation, hnone]

end Markup

/-- Whether only invocations that leave marks act at a hook. -/
def Hook.isSilent : Hook → Bool
  | .beforeElement _ | .afterAttributes | .beforeChildren | .afterChildren | .afterElement => false
  | _ => true

theorem Invocation.run_of_isSilent {hook : Hook} (hsilent : hook.isSilent = true)
    {invocation : Invocation} (hprobe : invocation.isProbe = false) :
    invocation.run hook = pure () := by
  cases invocation with
  | probe => cases hprobe
  | _ => cases hook <;> first | exact Bool.noConfusion hsilent | rfl

theorem Hook.run_of_isSilent {hook : Hook} (hsilent : hook.isSilent = true)
    {invocations : List Invocation} (hprobe : ∀ i ∈ invocations, i.isProbe = false) :
    hook.run Invocation.run invocations = (pure () : Emit Unit) := by
  have hforM (items : List Invocation) (hitems : ∀ i ∈ items, i.isProbe = false) :
      items.forM (Invocation.run · hook) = (pure () : Emit Unit) := by
    rw [List.forM_eq_forM]
    induction items with
    | nil => rfl
    | cons i rest ih =>
      rw [List.forM_cons, Invocation.run_of_isSilent hsilent (hitems i List.mem_cons_self),
        pure_bind, ih fun j hj => hitems j (List.mem_cons_of_mem _ hj)]
  unfold Hook.run Hook.order
  split
  · exact hforM _ fun i hi => hprobe i (List.mem_reverse.1 hi)
  · exact hforM _ hprobe

namespace Markup

/-! ### Elements -/

variable {registry : Registry} {invocations : List Invocation}

theorem follows_emitTagName (name : String) (effect : Effect) :
    Follows filters (emitTagName name effect) (draftTagName name effect) := by
  unfold emitTagName draftTagName
  cases effect.tagVariable with
  | some held => exact .say (.outVariable held)
  | none => exact .say (.outText name)

theorem follows_emitUnlessSkipped (skip : TagSkip) {body : Emit Unit} {d : Draft Unit}
    (hbody : Follows filters body d) :
    Follows filters (emitUnlessSkipped skip body) (.around .done (skipHeaders skip) d) := by
  cases skip with
  | when name => exact hbody.within (.conditional name false)
  | _ => exact hbody

theorem follows_emitAttributes (hprobe : ∀ i ∈ invocations, i.isProbe = false)
    (attributes : List Attribute) :
    Follows filters (emitAttributes invocations attributes)
      (attributes.forM (Attribute.draft filters)) := by
  unfold emitAttributes
  refine .forM attributes fun attr _ => ?_
  rw [Hook.run_of_isSilent rfl hprobe, Hook.run_of_isSilent rfl hprobe, pure_bind, bind_pure_unit]
  exact attr.follows_emit

theorem follows_emitStartTag (hprobe : ∀ i ∈ invocations, i.isProbe = false) (tag : Tag)
    (effect : Effect) (skip : TagSkip) :
    Follows filters (emitStartTag registry tag invocations effect skip)
      (draftStartTag filters registry tag invocations effect skip) := by
  refine follows_emitUnlessSkipped skip ?_
  rw [Hook.run_of_isSilent rfl hprobe, pure_bind]
  exact (Follows.say (.outText "<")).bind fun _ =>
    (follows_emitTagName tag.name effect).bind fun _ =>
      (follows_emitAttributes hprobe _).bind fun _ =>
        (Follows.forM invocations fun i hi => i.follows_afterAttributes (hprobe i hi)).bind fun _ =>
          .say (.outText _)

theorem follows_emitEndTag (tag : Tag) (effect : Effect) (skip : TagSkip) :
    Follows filters (emitEndTag tag effect skip) (draftEndTag tag effect skip) :=
  follows_emitUnlessSkipped skip <|
    (Follows.say (.outText "</")).bind fun _ =>
      (follows_emitTagName tag.name effect).bind fun _ => .say (.outText ">")

theorem follows_emitOpening (hprobe : ∀ i ∈ invocations, i.isProbe = false) (tag : Tag)
    (effect : Effect) (skip : TagSkip) :
    Follows filters (emitOpening registry tag invocations effect skip)
      (if skip ≠ .always then draftStartTag filters registry tag invocations effect skip
        else pure ()) := by
  unfold emitOpening
  split
  · rw [Hook.run_of_isSilent rfl hprobe, Hook.run_of_isSilent rfl hprobe, pure_bind, bind_pure_unit]
    exact follows_emitStartTag hprobe tag effect skip
  · exact .pure ()

theorem follows_emitContent (hprobe : ∀ i ∈ invocations, i.isProbe = false) (effect : Effect)
    {content : Emit Unit} {d : Draft Unit} (hcontent : Follows filters content d) :
    Follows filters (emitContent invocations effect content)
      (Invocation.aroundContent filters invocations (if effect.replaces then pure () else d)) := by
  have hinside : Follows filters (if effect.replaces then pure () else content)
      (if effect.replaces then pure () else d) := by
    split
    · exact .pure ()
    · exact hcontent
  exact Follows.aroundAll invocations (fun i hi => i.opens_beforeChildren (hprobe i hi))
    (fun i hi => i.run_afterChildren (hprobe i hi)) hinside

theorem follows_emitClosing (hprobe : ∀ i ∈ invocations, i.isProbe = false) (tag : Tag)
    (effect : Effect) (skip : TagSkip) :
    Follows filters (emitClosing tag invocations effect skip)
      (if skip ≠ .always ∧ tag.hasEndTag ∧ !tag.selfClosing then draftEndTag tag effect skip
        else pure ()) := by
  unfold emitClosing
  split
  · rw [Hook.run_of_isSilent rfl hprobe, Hook.run_of_isSilent rfl hprobe, pure_bind, bind_pure_unit]
    exact follows_emitEndTag tag effect skip
  · exact .pure ()

theorem follows_emitTags (hprobe : ∀ i ∈ invocations, i.isProbe = false) (tag : Tag)
    {content : Emit Unit} {d : Draft Unit} (hcontent : Follows filters content d) :
    Follows filters (emitTags registry tag invocations content)
      (draftTags filters registry tag invocations d) :=
  (follows_emitOpening hprobe tag _ _).bind fun _ =>
    (follows_emitContent hprobe _ hcontent).bind fun _ => follows_emitClosing hprobe tag _ _

/-- What an element is written in: the blocks of its directives, and one more if it holds raw
text. -/
theorem follows_emitElement (hregistry : registry.Unmarked) (tag : Tag) {content : Emit Unit}
    {d : Draft Unit} (hcontent : Follows filters content d) :
    Follows filters (emitElement registry tag content) (draftElement filters registry tag d) := by
  unfold emitElement elementOfTag
  rw [bind_assoc]
  refine (follows_invokeAll hregistry tag.attributes).bind_value fun n => ?_
  rw [pure_bind, composed_foldl_addInvocation _ _ rfl]
  simp only [Element.ofName, List.nil_append]
  have hprobe : ∀ i ∈ (Priority.sort (·.2) ((draftInvocations registry tag.attributes).value n)).map
      (·.1), i.isProbe = false := by
    intro i hi
    obtain ⟨found, hfound, rfl⟩ := List.mem_map.1 hi
    exact isProbe_draftInvocations tag.attributes n found ((Priority.sort_perm _).mem_iff.1 hfound)
  -- From here on nothing depends on where the invocations come from.
  generalize (Priority.sort (·.2) ((draftInvocations registry tag.attributes).value n)).map
    (·.1) = invocations at hprobe ⊢
  have hinside : Follows filters _ (Invocation.aroundElement filters tag.name invocations
      (draftTags filters registry tag invocations d)) :=
    Follows.aroundAll invocations (fun i hi => i.opens_beforeElement tag.name (hprobe i hi))
      (fun i hi => i.run_afterElement tag.name (hprobe i hi)) (follows_emitTags hprobe tag hcontent)
  by_cases hraw : isRawTextElement tag.name = true
  · have hblock := hinside.within .rawText
    simp only [bind_assoc] at hblock
    simp only [hraw, if_true]
    exact hblock
  · simp only [hraw, Bool.false_eq_true, if_false, bind_pure_unit]
    exact hinside

theorem follows_emitComment (text : String) (here : Location) :
    Follows filters (emitComment text here) (draftComment filters text here) := by
  unfold emitComment draftComment
  split
  · exact .pure ()
  · exact (Follows.say (.outText "<!--")).bind fun _ =>
      (follows_emitInterpolated text (here.shift 4) (some .comment)).bind fun _ =>
        .say (.outText "-->")

mutual

theorem Node.follows_emit (hregistry : registry.Unmarked) :
    ∀ node : Node, Follows filters (node.emit registry) (node.draft filters registry)
  | .text text here => by
    rw [Node.emit, Node.draft]
    exact follows_emitInterpolated text here none
  | .comment text here => by
    rw [Node.emit, Node.draft]
    exact follows_emitComment text here
  | .element tag children => by
    rw [Node.emit, Node.draft]
    exact follows_emitElement hregistry tag (follows_emitAll hregistry children)

theorem follows_emitAll (hregistry : registry.Unmarked) :
    ∀ nodes : List Node, Follows filters (emitAll registry nodes) (draftAll filters registry nodes)
  | [] => by
    rw [emitAll, draftAll]
    exact .pure ()
  | node :: rest => by
    rw [emitAll, draftAll]
    exact (Node.follows_emit hregistry node).bind fun _ => follows_emitAll hregistry rest

end

/-- The walk over a template does what the script of the template does. -/
theorem Template.follows_emit (hregistry : registry.Unmarked) (template : Template) :
    Follows filters (template.emit registry) (template.draft filters registry) :=
  follows_emitAll hregistry template.children

end Markup

end Stencil
