import Mathlib.Algebra.BigOperators.Group.List.Basic
import Mathlib.Algebra.Order.BigOperators.Group.List
import Mathlib.Algebra.Order.Group.Multiset
import Mathlib.Tactic.Abel
import Stencil.Proofs.ScopedScripts

/-!
# What commands declare

The variables that the commands of a template declare, counted as often as they are declared, are
among the names that the author gives to directives and those that the compiler makes, each of these
once. The count is kept by drafts: the blocks of a directive declare the names that were made for
it, and these are made before the element.

## Main definitions

* `Session.made`: the names that the compiler makes between two counts
* `Occurrence.authorNames`: the variables that the author declares by a directive
* `Draft.Declares`: a draft declares no more than certain names and those that it makes

## Main results

* `Occurrence.declares_invocation`: what an invocation declares
* `Markup.Template.declares_draft`: what the script of a template declares
-/

namespace Stencil

namespace Session

/-- The names that the compiler makes when `m` names were made before, until there are `n`. -/
def made (m n : Nat) : Multiset String :=
  ((List.range' m (n - m)).map symbol : List String)

@[simp] theorem made_self (n : Nat) : made n n = 0 := by
  simp [made]

@[simp] theorem made_succ (n : Nat) : made n (n + 1) = {symbol n} := by
  simp [made]

@[simp] theorem made_succ_succ (n : Nat) :
    made n (n + 1 + 1) = {symbol n} + {symbol (n + 1)} := by
  have hcount : n + 1 + 1 - n = 2 := by omega
  rw [made, hcount]
  rfl

theorem made_add_made {m n k : Nat} (h : m ≤ n) (h' : n ≤ k) :
    made m n + made n k = made m k := by
  have hfirst : m + (n - m) = n := by omega
  have hboth : n - m + (k - n) = k - m := by omega
  have happend := List.range'_append_1 (s := m) (m := n - m) (n := k - n)
  rw [hfirst, hboth] at happend
  rw [made, made, made, Multiset.coe_add, ← List.map_append, happend]

/-- No name is made twice. -/
theorem nodup_made (m n : Nat) : (made m n).Nodup :=
  Multiset.coe_nodup.2 (List.Nodup.map (fun _ _ h => symbol_inj.1 h) List.nodup_range')

end Session

open Session (made)

/-! ### Scripts -/

/-- The variables that several blocks declare. -/
def Header.declaredByAll (headers : List Header) : List String :=
  headers.flatMap declaredNames

namespace Script

/-- The variables that the commands of a script declare. -/
def declares (k : Script) : Multiset String :=
  (k.commands.flatMap Command.declaredNames : List String)

theorem declares_eq_zero {k : Script} (h : k.commands = []) : k.declares = 0 := by
  rw [declares, h]
  rfl

@[simp] theorem declares_done : done.declares = 0 := rfl

@[simp] theorem declares_append (first second : Script) :
    (first ++ second).declares = first.declares + second.declares := by
  rw [declares, commands_append, List.flatMap_append, ← Multiset.coe_add]
  rfl

/-- Among statements, only those that bind in the rest of the document declare. -/
@[simp] theorem declares_statement (x : Statement) (next : Script) :
    (statement x next).declares = (x.globals : Multiset String) + next.declares := by
  have hglobals : x.commands.flatMap Command.declaredNames = x.globals := by
    cases x <;> rfl
  rw [declares, commands, List.flatMap_append, hglobals, ← Multiset.coe_add]
  rfl

@[simp] theorem declares_block (header : Header) (body next : Script) :
    (block header body next).declares =
      (header.declaredNames : Multiset String) + body.declares + next.declares := by
  have hclose : header.close?.toList.flatMap Command.declaredNames = [] := by
    cases header <;> rfl
  rw [declares, commands]
  simp only [List.flatMap_append, hclose, List.append_nil, ← Multiset.coe_add]
  rfl

end Script

/-! ### Drafts -/

namespace Draft

variable {α β : Type}

/-- However many names were made before, a draft declares no more than `budget` and each of the
names that it makes once. -/
structure Declares (d : Draft α) (budget : Multiset String) : Prop where
  le : ∀ n, (d.script n).declares ≤ budget + made n ((d.script n).symbolsAfter n)

namespace Declares

variable {d : Draft α} {budget more : Multiset String}

theorem mono (h : Declares d budget) (hle : budget ≤ more) : Declares d more :=
  ⟨fun n => (h.le n).trans (add_le_add_left hle _)⟩

theorem pure (a : α) : Declares (Pure.pure a : Draft α) 0 :=
  ⟨fun _ => Multiset.zero_le _⟩

/-- What comes after may depend on the result. -/
theorem bind {f : α → Draft β} (hd : Declares d budget)
    (hf : ∀ a, Declares (f a) more) : Declares (d >>= f) (budget + more) := by
  refine ⟨fun n => ?_⟩
  have hfirst := hd.le n
  have hsecond := (hf (d.value n)).le ((d.script n).symbolsAfter n)
  have hmade := Session.made_add_made ((d.script n).le_symbolsAfter n)
    (((f (d.value n)).script ((d.script n).symbolsAfter n)).le_symbolsAfter _)
  rw [script_bind, Script.declares_append, Script.symbolsAfter_append, ← hmade,
    add_add_add_comm]
  exact add_le_add hfirst hsecond

theorem bind_zero {f : α → Draft β} (hd : Declares d 0) (hf : ∀ a, Declares (f a) more) :
    Declares (d >>= f) more :=
  zero_add more ▸ hd.bind hf

/-- Names that are made first may be declared later. -/
theorem bind_made {f : α → Draft β} (hnone : ∀ n, (d.script n).commands = [])
    (hf : ∀ n, Declares (f (d.value n)) (budget + made n ((d.script n).symbolsAfter n))) :
    Declares (d >>= f) budget := by
  refine ⟨fun n => ?_⟩
  have hsecond := (hf n).le ((d.script n).symbolsAfter n)
  have hmade := Session.made_add_made ((d.script n).le_symbolsAfter n)
    (((f (d.value n)).script ((d.script n).symbolsAfter n)).le_symbolsAfter _)
  rw [script_bind, Script.declares_append, Script.symbolsAfter_append, ← hmade,
    Script.declares_eq_zero (hnone n), zero_add, ← add_assoc]
  exact hsecond

theorem bind_fresh {f : String → Draft β} (hf : ∀ name, Declares (f name) (budget + {name})) :
    Declares (fresh >>= f) budget := by
  refine bind_made (fun _ => rfl) fun n => ?_
  have hmade : made n ((fresh.script n).symbolsAfter n) = {Session.symbol n} := Session.made_succ n
  rw [hmade]
  exact hf _

theorem write (k : Script) : Declares (.write k) k.declares :=
  ⟨fun _ => Multiset.le_add_right _ _⟩

/-- A statement that binds nothing. -/
theorem say {x : Statement} (h : x.globals = []) : Declares (.say x) 0 := by
  refine ⟨fun n => ?_⟩
  rw [script_say, Script.declares_statement, h]
  exact Multiset.zero_le _

theorem text (text : String) : Declares (.say (.outText text)) 0 := say rfl

theorem outVariable (name : String) : Declares (.say (.outVariable name)) 0 := say rfl

theorem within {header : Header} {d : Draft Unit} (hd : Declares d budget) :
    Declares (.within header d) ((header.declaredNames : Multiset String) + budget) := by
  refine ⟨fun n => ?_⟩
  rw [script_within, Script.declares_block, Script.declares_done, add_zero, add_assoc]
  exact add_le_add_right (hd.le n) _

/-- A block that declares nothing. -/
theorem within_plain {header : Header} (h : header.declaredNames = []) {d : Draft Unit}
    (hd : Declares d budget) : Declares (.within header d) budget := by
  have hboth : Declares (.within header d) ((header.declaredNames : Multiset String) + budget) :=
    within hd
  rw [h] at hboth
  exact zero_add budget ▸ hboth

theorem forM {γ : Type} {f : γ → Draft Unit} {budget : γ → Multiset String} (items : List γ)
    (h : ∀ a ∈ items, Declares (f a) (budget a)) :
    Declares (items.forM f) (items.map budget).sum := by
  induction items with
  | nil => exact pure ()
  | cons a rest ih =>
    simp only [List.forM_eq_forM, List.forM_cons, List.map_cons, List.sum_cons] at ih ⊢
    exact (h a List.mem_cons_self).bind fun _ => ih fun b hb => h b (List.mem_cons_of_mem _ hb)

/-- Items none of which declares more than the names that it makes. -/
theorem forM_zero {γ : Type} {f : γ → Draft Unit} (items : List γ)
    (h : ∀ a ∈ items, Declares (f a) 0) : Declares (items.forM f) 0 := by
  have hall : Declares (items.forM f) (items.map fun _ => (0 : Multiset String)).sum :=
    forM items h
  simpa using hall

theorem foldr_within {d : Draft Unit} (headers : List Header) (hd : Declares d budget) :
    Declares (headers.foldr .within d)
      ((Header.declaredByAll headers : Multiset String) + budget) := by
  induction headers with
  | nil => simpa [Header.declaredByAll] using hd
  | cons header rest ih =>
    have hsplit : (Header.declaredByAll (header :: rest) : Multiset String) =
        (header.declaredNames : Multiset String) +
          (Header.declaredByAll rest : Multiset String) := by
      rw [Multiset.coe_add]
      rfl
    rw [hsplit, add_assoc]
    exact within ih

/-- A script, then blocks around a draft. -/
theorem around {d : Draft Unit} {opening : Script} {headers : List Header}
    (hd : Declares d budget) :
    Declares (.around opening headers d)
      (opening.declares + ((Header.declaredByAll headers : Multiset String) + budget)) :=
  (write opening).bind fun _ => foldr_within headers hd

/-- Items each of which writes a script and then opens blocks around what follows. -/
theorem aroundAll {γ : Type} {opening : γ → Script} {headers : γ → List Header} {d : Draft Unit}
    (items : List γ) (hd : Declares d budget) :
    Declares (items.foldr (fun a => .around (opening a) (headers a)) d)
      ((items.map fun a =>
        (opening a).declares + (Header.declaredByAll (headers a) : Multiset String)).sum +
          budget) := by
  induction items with
  | nil => simpa using hd
  | cons a rest ih =>
    rw [List.foldr_cons, List.map_cons, List.sum_cons, add_assoc, add_assoc]
    exact around ih

end Declares

end Draft

open Draft

variable {filters : Pipeline}

/-! ### Text with expressions -/

theorem Written.declares_checkIn (source : Written) (placement? : Option Placement) :
    Declares (.write (source.checkIn filters placement?)) 0 := by
  have hnone : (source.checkIn filters placement?).declares = 0 := by
    cases placement? <;> rfl
  exact hnone ▸ .write _

theorem Fragment.declares_draft (placement? : Option Placement) (fragment : Fragment) :
    Declares (fragment.draft filters placement?) 0 := by
  cases fragment with
  | text literal => exact .text _
  | expression e here =>
    refine (Written.declares_checkIn _ _).bind_zero fun _ => .bind_fresh fun name => ?_
    rw [add_comm]
    exact .within (.outVariable _)

theorem declares_draftMalformed (error : ExpressionError) : Declares (draftMalformed error) 0 :=
  .say rfl

theorem declares_draftInterpolated (text : String) (here : Location)
    (placement? : Option Placement) :
    Declares (draftInterpolated filters text here placement?) 0 := by
  unfold draftInterpolated
  cases Fragment.parse here text with
  | ok fragments =>
    exact .forM_zero fragments fun fragment _ => fragment.declares_draft placement?
  | error error => exact (declares_draftMalformed error).bind_zero fun _ => .text _

namespace Markup

/-! ### Attributes -/

theorem declares_draftDynamicAttribute (name : String) (source : Written) (quote : String) :
    Declares (draftDynamicAttribute filters name source quote) 0 := by
  refine (Declares.say rfl).bind_zero fun _ => .bind_fresh fun held => ?_
  rw [add_comm]
  refine .within (.within_plain rfl ?_)
  exact (Declares.text _).bind_zero fun _ => (Declares.outVariable _).bind_zero fun _ => .text _

theorem declares_draftLiteralAttribute (name text : String) (here : Location) (quote : String) :
    Declares (draftLiteralAttribute filters name text here quote) 0 := by
  unfold draftLiteralAttribute
  split
  · next error _ => exact (declares_draftMalformed error).bind_zero fun _ => .text _
  · exact declares_draftDynamicAttribute _ _ _
  · next fragments _ _ =>
    have hfragments : Declares (fragments.forM (Fragment.draft filters _)) 0 :=
      .forM_zero fragments fun fragment _ => fragment.declares_draft (some (.ofAttribute name))
    exact (Declares.text _).bind_zero fun _ => hfragments.bind_zero fun _ => .text _

theorem Attribute.declares_draft (attr : Attribute) : Declares (attr.draft filters) 0 := by
  unfold Attribute.draft
  cases attr.value with
  | absent => exact .text _
  | literal text => exact declares_draftLiteralAttribute _ _ _ _
  | directive call e => exact declares_draftDynamicAttribute _ _ _

end Markup

/-! ### Directives -/

namespace Occurrence

variable (o : Occurrence)

/-- The name that the author gives to the items of a loop. -/
def items : List String :=
  match o.directive with
  | .list | .repeated => [o.call.identifier?.getD "item"]
  | _ => []

/-- The name for the status of a loop, made from that for its items. -/
def statuses : List String :=
  o.items.map (· ++ "List")

/-- The parameters of the procedure that a directive defines. -/
def parameters : List String :=
  match o.directive, o.call.identifier? with
  | .template, some _ => o.source.expression.options.names
  | _, _ => []

/-- The names that the author gives to variables by a directive. -/
def givenNames : List String :=
  o.items ++ o.parameters ++ o.assigned

/-- The variables that the author declares by a directive: those given, and the status of a loop. -/
def authorNames : List String :=
  o.givenNames ++ o.statuses

end Occurrence

/-- The variables that the blocks of an invocation declare, at all hooks. -/
def Invocation.declares (filters : Pipeline) (tag : String) (i : Invocation) : Multiset String :=
  (i.elementOpening filters).declares + (Header.declaredByAll (i.elementHeaders filters tag) :) +
    (i.attributeScript filters).declares +
    ((i.contentOpening filters).declares + (Header.declaredByAll i.contentHeaders :))

namespace Occurrence

variable {o : Occurrence}

/-- An invocation declares the names that the author gives to its directive, and each name that is
made for it once. -/
theorem declares_invocation (hprobe : o.directive.isProbe = false) (tag : String) (n : Nat) :
    (o.invocation.value n).declares filters tag ≤ o.authorNames + made n (o.after n) := by
  obtain ⟨directive, ⟨name, arguments⟩, source⟩ := o
  -- Most directives are given one name, or one by the author.
  have hnone : (0 : Multiset String) ≤ 0 + made n n := Multiset.zero_le _
  have hmade : ({Session.symbol n} : Multiset String) ≤ 0 + made n (n + 1) := by simp
  have hnamed (name : String) : ({name} : Multiset String) ≤ {name} + made n n := by simp
  have hloop (item status : String) :
      {Session.symbol n} + ({item} + {Session.symbol (n + 1)} + {status}) ≤
        {item} + {status} + made n (n + 1 + 1) := by
    rw [Session.made_succ_succ]
    exact le_of_eq (by abel)
  cases directive with
  | probe => cases hprobe
  | use => exact hnamed _
  | set =>
    cases arguments with
    | nil => exact hnone
    | cons first rest => exact hnamed first
  | test =>
    cases arguments with
    | nil => exact hmade
    | cons first rest => exact hnamed first
  | list => exact hloop _ _
  | repeated => exact hloop _ _
  | template =>
    cases arguments with
    | nil => exact hnone
    | cons first rest =>
      rw [invocation, Directive.value_draft_template source n rfl]
      refine le_trans (le_of_eq ?_) (Multiset.le_add_right _ _)
      simp [Invocation.declares, Invocation.elementOpening, Invocation.elementHeaders,
        Invocation.attributeScript, Invocation.contentOpening, Invocation.contentHeaders,
        Header.declaredByAll, Header.declaredNames, Header.start?, Command.declaredNames,
        Command.declared, authorNames, givenNames, items, statuses, parameters,
        assigned, Markup.DirectiveCall.identifier?, Function.comp_def]
  | call =>
    have hboth : {Session.symbol n} + {Session.symbol (n + 1)} ≤ 0 + made n (n + 1 + 1) := by simp
    exact hboth
  | insertion => exact hmade
  | resource => exact hmade
  | text => exact hmade
  | attr => cases arguments <;> exact hmade
  | element => exact hmade
  | unwrap =>
    rw [invocation, Directive.value_draft_unwrap]
    cases hnull : source.expression.root.isNull with
    | true => exact Multiset.zero_le _
    | false =>
      have hafter : after ⟨.unwrap, ⟨name, arguments⟩, source⟩ n = n + 1 := by
        simp [after, invocation, Directive.draft, hnull, Script.symbolsAfter,
          Statement.symbolsAfter]
      rw [hafter]
      exact hmade

end Occurrence

namespace Markup

variable {registry : Registry}

/-- The names made for the directives among attributes are those made for the attributes. -/
theorem sum_made_numbered (attributes : List Attribute) :
    ∀ n, ((Occurrence.numbered n (occurrences registry attributes)).map
        fun x => made x.2 (x.1.after x.2)).sum =
      made n (((draftInvocations registry attributes).script n).symbolsAfter n) := by
  refine draftInvocations_induct (fun n => (Session.made_self n).symm) (fun o found d ih n => ?_)
    (fun _ _ _ _ ih => ih) attributes
  have hmade := Session.made_add_made ((o.invocation.script n).le_symbolsAfter n)
    ((d.script (o.after n)).le_symbolsAfter (o.after n))
  simp only [Occurrence.numbered, List.map_cons, List.sum_cons, script_bind, script_pure,
    Script.append_done, Script.symbolsAfter_append]
  exact (congrArg (made n (o.after n) + ·) (ih _)).trans hmade

theorem coe_flatMap {γ : Type} (names : γ → List String) (items : List γ) :
    ((items.flatMap names : List String) : Multiset String) =
      (items.map fun a => (names a : Multiset String)).sum := by
  induction items with
  | nil => rfl
  | cons a rest ih => rw [List.flatMap_cons, ← Multiset.coe_add, List.map_cons, List.sum_cons, ih]

/-- The invocations on an element declare the names that the author gives to their directives, and
each name that is made for them once. -/
theorem sum_declares_le (hregistry : registry.Unmarked) (tag : Tag) (n : Nat) :
    ((Occurrence.invocations (Priority.sort (·.1.directive.priority)
        (Occurrence.numbered n (occurrences registry tag.attributes)))).map
          fun i => i.declares filters tag.name).sum ≤
      ((occurrences registry tag.attributes).flatMap Occurrence.authorNames : List String) +
        made n (((draftInvocations registry tag.attributes).script n).symbolsAfter n) := by
  have hcomposed := composed_sort hregistry tag n
  rw [Occurrence.invocations, List.map_map]
  refine (List.sum_le_sum fun x hx =>
    Occurrence.declares_invocation (hcomposed.probe x hx) tag.name x.2).trans ?_
  -- The order of priority makes no difference to what is declared.
  rw [((Priority.sort_perm _).map _).sum_eq, List.sum_map_add, sum_made_numbered]
  have hnames := congrArg (List.map fun o : Occurrence => (o.authorNames : Multiset String))
    (Occurrence.map_fst_numbered n (occurrences registry tag.attributes))
  rw [List.map_map] at hnames
  rw [coe_flatMap, ← hnames]
  rfl

/-! ### Elements -/

variable {tag : Tag} {invocations : List Invocation} {d : Draft Unit} {budget : Multiset String}

theorem declares_draftTagName (name : String) (effect : Effect) :
    Declares (draftTagName name effect) 0 := by
  unfold draftTagName
  split
  · exact .outVariable _
  · exact .text _

theorem declares_unlessSkipped (skip : TagSkip) (hd : Declares d budget) :
    Declares (.around .done (skipHeaders skip) d) budget := by
  cases skip with
  | when name => exact (Declares.write .done).bind_zero fun _ => .within_plain rfl hd
  | _ => exact (Declares.write .done).bind_zero fun _ => hd

theorem declares_draftTags (hd : Declares d budget) :
    Declares (draftTags filters registry tag invocations d)
      ((invocations.map fun i => (i.attributeScript filters).declares).sum +
        ((invocations.map fun i => (i.contentOpening filters).declares +
          (Header.declaredByAll i.contentHeaders : Multiset String)).sum + budget)) := by
  unfold draftTags
  generalize Effect.all (invocations.map Invocation.effect) = effect
  simp only
  generalize (if isBareElement tag.name then TagSkip.always else effect.skip) = skip
  have hstart : Declares (draftStartTag filters registry tag invocations effect skip)
      (invocations.map fun i => (i.attributeScript filters).declares).sum := by
    refine declares_unlessSkipped skip ((Declares.text _).bind_zero fun _ =>
      (declares_draftTagName tag.name effect).bind_zero fun _ =>
        (Declares.forM_zero _ fun attr _ => attr.declares_draft).bind_zero fun _ => ?_)
    rw [← add_zero (List.sum _)]
    exact (Declares.forM _ fun i _ => .write _).bind fun _ => .text _
  have hend : Declares (draftEndTag tag effect skip) 0 :=
    declares_unlessSkipped skip ((Declares.text _).bind_zero fun _ =>
      (declares_draftTagName tag.name effect).bind_zero fun _ => .text _)
  have hcontent : Declares (if effect.replaces then pure () else d) budget := by
    split
    · exact (Declares.pure ()).mono (Multiset.zero_le _)
    · exact hd
  refine Declares.bind ?_ fun _ => ?_
  · split
    · exact hstart
    · exact (Declares.pure ()).mono (Multiset.zero_le _)
  · rw [← add_zero (_ + budget)]
    refine (Declares.aroundAll invocations hcontent).bind fun _ => ?_
    split
    · exact hend
    · exact .pure ()

/-- An element declares what the author names on its tag, and what its content declares. -/
theorem declares_draftElement (hregistry : registry.Unmarked) (hd : Declares d budget) :
    Declares (draftElement filters registry tag d)
      (((occurrences registry tag.attributes).flatMap Occurrence.authorNames : List String) +
        budget) := by
  refine Declares.bind_made (commands_draftInvocations tag.attributes) fun n => ?_
  simp only [sort_draftInvocations]
  have hsum : (List.map (fun i : Invocation => i.declares filters tag.name) _).sum ≤ _ :=
    sum_declares_le hregistry tag n
  generalize Occurrence.invocations _ = invocations at hsum ⊢
  -- Around the element, after the attributes and around the content: all that is declared.
  have hbudget : (invocations.map fun i => (i.elementOpening filters).declares +
        (Header.declaredByAll (i.elementHeaders filters tag.name) : Multiset String)).sum +
      ((invocations.map fun i => (i.attributeScript filters).declares).sum +
        ((invocations.map fun i => (i.contentOpening filters).declares +
          (Header.declaredByAll i.contentHeaders : Multiset String)).sum + budget)) =
      (invocations.map fun i => i.declares filters tag.name).sum + budget := by
    simp only [Invocation.declares, List.sum_map_add]
    abel
  have hinside : Declares (Invocation.aroundElement filters tag.name invocations
      (draftTags filters registry tag invocations d)) _ :=
    .aroundAll invocations (declares_draftTags hd)
  rw [hbudget] at hinside
  rw [add_right_comm]
  have hall := hinside.mono (add_le_add_left hsum budget)
  split
  · exact (Declares.write .done).bind_zero fun _ => .within_plain rfl hall
  · exact (Declares.write .done).bind_zero fun _ => hall

theorem declares_draftComment (text : String) (here : Location) :
    Declares (draftComment filters text here) 0 := by
  unfold draftComment
  split
  · exact .pure ()
  · exact (Declares.text _).bind_zero fun _ =>
      (declares_draftInterpolated _ _ _).bind_zero fun _ => .text _

mutual

theorem Node.declares_draft (hregistry : registry.Unmarked) : ∀ (node : Node),
    Declares (node.draft filters registry)
      (namesOn Occurrence.authorNames registry node.tags : List String)
  | .text text here => by
    rw [Node.draft, Node.tags]
    exact declares_draftInterpolated text here none
  | .comment text here => by
    rw [Node.draft, Node.tags]
    exact declares_draftComment text here
  | .element tag children => by
    rw [Node.draft, Node.tags, namesOn, List.flatMap_cons, ← Multiset.coe_add]
    exact declares_draftElement hregistry (declares_draftAll hregistry children)

theorem declares_draftAll (hregistry : registry.Unmarked) : ∀ (nodes : List Node),
    Declares (draftAll filters registry nodes)
      (namesOn Occurrence.authorNames registry (tagsOf nodes) : List String)
  | [] => by
    rw [draftAll, tagsOf]
    exact .pure ()
  | node :: rest => by
    rw [draftAll, tagsOf, namesOn, List.flatMap_append, ← Multiset.coe_add]
    exact (Node.declares_draft hregistry node).bind fun _ => declares_draftAll hregistry rest

end

/-- The script of a template declares what the author names, and each name that the compiler makes
once. -/
theorem Template.declares_draft (hregistry : registry.Unmarked) (template : Template) :
    Declares (template.draft filters registry)
      (template.gather Occurrence.authorNames registry : List String) :=
  declares_draftAll hregistry template.children

end Markup

end Stencil
