import Stencil.Proofs.Acts
import Stencil.Proofs.PrioritySort

/-!
# Directives and their invocations

The invocations on an element are those of the directives that occur there, each made with the names
that are new at its turn. So the names that two of them are given differ, and what an invocation
does, its names apart, is what the tree says that its directive does.

## Main definitions

* `Script.prepares`: a script that only prepares, as is done for invocations
* `Occurrence.invocation`: the invocation of a directive where it occurs
* `Occurrence.numbered`: directives with the number of names made before each
* `Occurrence.Fits`: an invocation does what a directive does

## Main results

* `Markup.draftInvocations_induct`: induction over the directives among attributes
* `Markup.value_draftInvocations`: the invocations of attributes
* `Occurrence.fits_invocation`: the invocation of a directive does what the directive does
* `Occurrence.pairwise_numbered`: no two directives are given the same name
-/

namespace Stencil

theorem Script.le_symbolsAfter (k : Script) (n : Nat) : n ≤ k.symbolsAfter n := by
  induction k generalizing n with
  | done => exact Nat.le_refl n
  | statement x next ih =>
    refine Nat.le_trans ?_ (ih _)
    cases x <;> simp [Statement.symbolsAfter]
  | block header body next hbody ih => exact Nat.le_trans (hbody n) (ih _)

/-! ### The making of invocations -/

/-- Whether a finding is about a name that does not resolve or that hides another one. -/
def Finding.isOfName : Finding → Bool
  | .unresolved _ | .hides _ | .redeclares .. | .shadows _ => true
  | _ => false

/-- Whether a statement only prepares: it makes a name, reports something that is not of a name, or
declares a name for the whole document. -/
def Statement.prepares : Statement → Bool
  | .generate | .declareGlobal .. => true
  | .report _ _ finding => !finding.isOfName
  | _ => false

/-- Whether a script only prepares. -/
def Script.prepares : Script → Bool
  | .done => true
  | .statement x next => x.prepares && next.prepares
  | .block .. => false

theorem Script.prepares_append (first second : Script) :
    (first ++ second).prepares = (first.prepares && second.prepares) := by
  induction first with
  | done => rfl
  | statement x next ih => rw [statement_append, prepares, prepares, ih, Bool.and_assoc]
  | block => rfl

/-- Preparations write no command. -/
theorem Script.commands_of_prepares {k : Script} (h : k.prepares = true) : k.commands = [] := by
  induction k with
  | done => rfl
  | statement x next ih =>
    obtain ⟨hx, hnext⟩ := Bool.and_eq_true_iff.1 h
    rw [commands, ih hnext, List.append_nil]
    cases x <;> first | rfl | cases hx
  | block => cases h

/-- For an invocation there are only preparations. -/
theorem Directive.prepares_draft (directive : Directive) (call : Markup.DirectiveCall)
    (source : Written) (n : Nat) :
    ((directive.draft call source).script n).prepares = true := by
  obtain ⟨name, arguments⟩ := call
  cases directive with
  | set | test => cases arguments <;> rfl
  | template =>
    cases arguments with
    | nil => rfl
    | cons first rest =>
      simp only [draft, draftTemplate, draftIdentifier, Markup.DirectiveCall.identifier?,
        List.head?_cons, pure_bind]
      split <;> rfl
  | unwrap =>
    simp only [draft]
    split <;> rfl
  | _ => rfl

/-- The invocation of a directive where it occurs. -/
def Occurrence.invocation (o : Occurrence) : Draft Invocation :=
  o.directive.draft o.call o.source

namespace Markup

variable {registry : Registry}

/-- What holds of the directives that occur among attributes and of the making of their invocations,
if it is kept by one more directive and by a call of an unknown one. -/
@[elab_as_elim]
theorem draftInvocations_induct
    {motive : List Occurrence → Draft (List (Invocation × Int)) → Prop} (nil : motive [] (pure []))
    (cons : ∀ o found d, motive found d → motive (o :: found) (do
      let invocation ← o.invocation
      let others ← d
      return (invocation, o.directive.priority) :: others))
    (unknown : ∀ here call found d, motive found d → motive found (do
      .say (.report .error here (.unknownDirective call))
      d)) (attributes : List Attribute) :
    motive (occurrences registry attributes) (draftInvocations registry attributes) := by
  induction attributes with
  | nil => exact nil
  | cons attr rest ih =>
    unfold draftInvocations occurrences
    rw [List.filterMap_cons]
    cases attr.value with
    | directive call e =>
      simp only
      cases registry.find? call.name with
      | some directive => exact cons ⟨directive, call, ⟨e, attr.location⟩⟩ _ _ ih
      | none => exact unknown attr.location call _ _ ih
    | _ => exact ih

theorem prepares_draftInvocations (attributes : List Attribute) :
    ∀ n, ((draftInvocations registry attributes).script n).prepares = true := by
  refine draftInvocations_induct (fun _ => rfl) (fun o found d ih n => ?_)
    (fun _ _ _ _ ih => ih) attributes
  simp [Script.prepares_append, Occurrence.invocation, o.directive.prepares_draft, ih]

end Markup

namespace Occurrence

/-- The number of names made after the invocation of a directive, before which `n` were made. -/
def after (o : Occurrence) (n : Nat) : Nat :=
  (o.invocation.script n).symbolsAfter n

/-- Directives with the number of names made before each. -/
def numbered (n : Nat) : List Occurrence → List (Occurrence × Nat)
  | [] => []
  | o :: rest => (o, n) :: numbered (o.after n) rest

theorem map_fst_numbered (n : Nat) (found : List Occurrence) :
    (numbered n found).map Prod.fst = found := by
  induction found generalizing n with
  | nil => rfl
  | cons o rest ih => rw [numbered, List.map_cons, ih]

theorem le_of_mem_numbered {n : Nat} {found : List Occurrence} :
    ∀ x ∈ numbered n found, n ≤ x.2 := by
  induction found generalizing n with
  | nil => simp [numbered]
  | cons o rest ih =>
    intro x hx
    rcases List.mem_cons.1 hx with rfl | hx
    · exact Nat.le_refl n
    · exact Nat.le_trans (Script.le_symbolsAfter _ n) (ih x hx)

/-- The names of one of two directives are made before those of the other. -/
def Apart (x y : Occurrence × Nat) : Prop :=
  x.1.after x.2 ≤ y.2 ∨ y.1.after y.2 ≤ x.2

theorem Apart.symm {x y : Occurrence × Nat} (h : Apart x y) : Apart y x := Or.symm h

theorem pairwise_numbered (n : Nat) (found : List Occurrence) :
    (numbered n found).Pairwise Apart := by
  induction found generalizing n with
  | nil => exact .nil
  | cons o rest ih =>
    exact List.pairwise_cons.2 ⟨fun y hy => .inl (le_of_mem_numbered y hy), ih _⟩

end Occurrence

/-- The invocations of attributes are those of the directives that occur among them. -/
theorem Markup.value_draftInvocations (registry : Registry) (attributes : List Attribute) :
    ∀ n, (draftInvocations registry attributes).value n =
      (Occurrence.numbered n (occurrences registry attributes)).map fun x =>
        (x.1.invocation.value x.2, x.1.directive.priority) :=
  draftInvocations_induct (fun _ => rfl) (fun _ _ _ ih _ => congrArg (_ :: ·) (ih _))
    (fun _ _ _ _ ih => ih) attributes

/-! ### Invocations -/

namespace Command

/-- A binding of one new name does not declare another one. -/
theorem declares_symbol {m n : Nat} (h : m ≠ n) (value : Term) (here : Location) :
    declares (Session.symbol m) (.bindingStart (Session.symbol n) value here) = false := by
  simp [declares, declared, Session.lower_symbol, Session.symbol_inj, h.symm]

end Command

/-- The variables of a call are bound to what the filters leave of its expression. -/
theorem Invocation.shown_call (filters : Pipeline) (source : Written) (n : Nat)
    (stack : List Command) :
    (contentOpening filters (.call (Session.symbol n) (Session.symbol (n + 1)) source)).shown
      stack = [Act.shown filters (.call source)] := by
  -- The binding of the arguments stands inside that of the procedure, and does not hide it.
  have hprocedure (value : Term) (here : Location) :=
    Command.valueOf?_cons (Command.declares_symbol (Nat.ne_of_lt n.lt_add_one) value here)
  simp only [contentOpening, Script.shown, Statement.shown, Header.shown, Header.inside,
    Header.start?, Option.toList_some, List.cons_append, List.nil_append, Written.check, bindingOf,
    List.append_nil, hprocedure, Command.valueOf?_bindingStart, Act.shown]

namespace Directive

variable (call : Markup.DirectiveCall) (source : Written) (n : Nat)

theorem value_draft_unwrap :
    (Directive.unwrap.draft call source).value n =
      .unwrap
        (if source.expression.root.isNull then none else some (Session.symbol n, source)) := by
  simp only [draft]
  split <;> rfl

theorem value_draft_template {call : Markup.DirectiveCall} {name : String}
    (h : call.identifier? = some name) :
    (Directive.template.draft call source).value n =
      .template name source.expression.options.names source.location := by
  simp only [draft, draftTemplate, draftIdentifier, h, pure_bind]
  split <;> rfl

end Directive

namespace Occurrence

/-- An invocation does what a directive does. -/
structure Fits (o : Occurrence) (i : Invocation) : Prop where
  elementOpening : ∀ filters stack, (i.elementOpening filters).shown stack = [] := by
    intros; rfl
  elementHeaders : ∀ filters tag,
      (i.elementHeaders filters tag).flatMap Header.shown =
        o.elementActs.map (Act.shown filters) := by
    intros; rfl
  attributeScript : ∀ filters stack,
      (i.attributeScript filters).shown stack = o.attributeActs.map (Act.shown filters) := by
    intros; rfl
  contentOpening : ∀ filters stack,
      (i.contentOpening filters).shown stack = o.contentActs.map (Act.shown filters) := by
    intros; rfl
  contentHeaders : i.contentHeaders.flatMap Header.shown = [] := by rfl
  skip : decide (i.effect.skip = .always) = o.unwraps := by rfl
  overrides : i.effect.overrides = o.overrides := by rfl
  replaces : i.effect.replaces = o.replaces := by rfl
  tagVariable : o.directive ≠ .element → i.effect.tagVariable = none := by intros; rfl

variable {o : Occurrence}

/-- The invocation of a directive does what the directive does. -/
theorem fits_invocation (hprobe : o.directive.isProbe = false) (n : Nat) :
    o.Fits (o.invocation.value n) := by
  obtain ⟨directive, ⟨name, arguments⟩, source⟩ := o
  cases directive with
  | probe => cases hprobe
  | set | test => cases arguments <;> exact {}
  | template =>
    cases arguments with
    | nil => exact {}
    | cons first rest =>
      rw [invocation, Directive.value_draft_template source n rfl]
      exact {}
  | call =>
    exact { contentOpening := fun filters stack => Invocation.shown_call filters source n stack }
  | insertion => exact { contentOpening := fun _ stack => Script.shown_binding _ _ _ _ stack }
  | resource => exact { contentOpening := fun _ stack => Script.shown_binding _ _ _ _ stack }
  | text => exact { contentOpening := fun _ stack => Script.shown_binding _ _ _ _ stack }
  | attr =>
    cases arguments with
    | nil => exact { attributeScript := fun _ stack => Script.shown_binding _ _ _ _ stack }
    | cons target rest =>
      exact { attributeScript := fun _ stack =>
                Script.shown_bindingIf _ _ _ _ (" " ++ target ++ "=\"") "\"" stack }
  | unwrap =>
    rw [invocation, Directive.value_draft_unwrap]
    cases hnull : source.expression.root.isNull with
    | true => exact { skip := by simp only [unwraps, hnull]; rfl }
    | false => exact { skip := by simp only [unwraps, hnull]; rfl }
  | element => exact { tagVariable := fun helement => absurd rfl helement }
  | _ => exact {}

/-! ### The name of a tag -/

/-- Around its element, a directive that comes no earlier than one that gives a tag its name binds
nothing but a name of its own. -/
theorem elementHeaders_of_late (hprobe : o.directive.isProbe = false)
    (hlate : Directive.element.priority ≤ o.directive.priority) (filters : Pipeline) (tag : String)
    (n : Nat) :
    (o.invocation.value n).elementHeaders filters tag = [] ∨
      n < o.after n ∧ ∃ value here,
        (o.invocation.value n).elementHeaders filters tag =
          [.binding .bound (Session.symbol n) value here] := by
  obtain ⟨directive, call, source⟩ := o
  cases directive with
  | element => exact .inr ⟨n.lt_add_one, _, _, rfl⟩
  | attr => exact .inl rfl
  | text => exact .inl rfl
  | unwrap =>
    rw [invocation, Directive.value_draft_unwrap]
    cases hnull : source.expression.root.isNull with
    | true => exact .inl rfl
    | false =>
      refine .inr ⟨?_, _, _, rfl⟩
      simp [after, invocation, Directive.draft, hnull, Script.symbolsAfter, Statement.symbolsAfter]
  | probe => cases hprobe
  -- All other directives come before those that name a tag.
  | _ => exact absurd hlate (of_decide_eq_false rfl)

/-- The blocks open inside those of directives around an element. -/
def stackInside (filters : Pipeline) (tag : String) :
    List (Occurrence × Nat) → List Command → List Command
  | [], stack => stack
  | (o, n) :: rest, stack =>
    stackInside filters tag rest
      (Header.insideAll ((o.invocation.value n).elementHeaders filters tag) stack)

variable {filters : Pipeline} {tag : String} {found : List (Occurrence × Nat)}

/-- What a name is bound to does not change inside blocks of directives that come late and have
other names. -/
theorem valueOf?_stackInside {m : Nat} (hprobe : ∀ x ∈ found, x.1.directive.isProbe = false)
    (hlate : ∀ x ∈ found, Directive.element.priority ≤ x.1.directive.priority)
    (hother : ∀ x ∈ found, x.2 < x.1.after x.2 → m ≠ x.2) (stack : List Command) :
    Command.valueOf? (Session.symbol m) (stackInside filters tag found stack) =
      Command.valueOf? (Session.symbol m) stack := by
  induction found generalizing stack with
  | nil => rfl
  | cons x rest ih =>
    have hrest := ih (fun y hy => hprobe y (List.mem_cons_of_mem _ hy))
      (fun y hy => hlate y (List.mem_cons_of_mem _ hy))
      (fun y hy => hother y (List.mem_cons_of_mem _ hy))
    rw [stackInside, hrest]
    rcases elementHeaders_of_late (hprobe x List.mem_cons_self) (hlate x List.mem_cons_self) filters
      tag x.2 with hnone | ⟨hnew, value, here, hone⟩
    · rw [hnone]
      rfl
    · rw [hone]
      exact Command.valueOf?_cons
        (Command.declares_symbol (hother x List.mem_cons_self hnew) value here) stack

/-- Inside the blocks around an element, the variable that holds the name of the tag is bound to
what the first directive that names the tag gives. -/
theorem shown_tagVariable (hprobe : ∀ x ∈ found, x.1.directive.isProbe = false)
    (hsorted : found.Pairwise fun x y => x.1.directive.priority ≤ y.1.directive.priority)
    (hapart : found.Pairwise Apart) (stack : List Command) :
    (Effect.all (found.map fun x => (x.1.invocation.value x.2).effect)).tagVariable.toList.map
        (fun held => Shown.written
          (Command.valueOf? held (stackInside filters tag found stack))) =
      ((found.map (·.1)).findSome? (tagName? · tag)).toList.map (Act.shown filters) := by
  induction found generalizing stack with
  | nil => rfl
  | cons x rest ih =>
    obtain ⟨hfirst, hsorted⟩ := List.pairwise_cons.1 hsorted
    obtain ⟨hnames, hapart⟩ := List.pairwise_cons.1 hapart
    have hprobes : ∀ y ∈ rest, y.1.directive.isProbe = false :=
      fun y hy => hprobe y (List.mem_cons_of_mem _ hy)
    by_cases helement : x.1.directive = .element
    · obtain ⟨⟨_, call, source⟩, n⟩ := x
      obtain rfl := helement
      -- The directives after it bind only names of their own, so its variable is not hidden.
      have hother : ∀ y ∈ rest, y.2 < y.1.after y.2 → n ≠ y.2 := by
        rintro y hy hnew rfl
        rcases hnames y hy with hbefore | hafter
        · exact absurd hbefore (Nat.not_le_of_lt y.2.lt_add_one)
        · exact absurd hafter (Nat.not_le_of_lt hnew)
      have hvalue : Command.valueOf? (Session.symbol n) (stackInside filters tag rest
          (Header.insideAll
            (((invocation ⟨.element, call, source⟩).value n).elementHeaders filters tag) stack)) =
              _ :=
        (valueOf?_stackInside hprobes hfirst hother _).trans (Command.valueOf?_bindingStart _ _ _ _)
      simp only [List.map_cons, stackInside]
      exact congrArg (fun value? => [Shown.written value?]) hvalue
    · have hnone := (fits_invocation (hprobe x List.mem_cons_self) x.2).tagVariable helement
      have hname : x.1.tagName? tag = none := by
        unfold tagName?
        split
        · next heq => exact absurd heq helement
        · rfl
      have hall :
          (Effect.all ((x :: rest).map fun x => (x.1.invocation.value x.2).effect)).tagVariable =
            (Effect.all (rest.map fun x => (x.1.invocation.value x.2).effect)).tagVariable := by
        simp [Effect.all, Effect.and, hnone]
      rw [hall, List.map_cons, List.findSome?_cons, hname]
      exact ih hprobes hsorted hapart _

end Occurrence

end Stencil
