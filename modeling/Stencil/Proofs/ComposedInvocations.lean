import Stencil.Directive.Hook
import Stencil.Element
import Stencil.Proofs.PrioritySort

/-!
# Composed invocations

The invocations of an element are put in order when they are first asked for, and stay as they are
from then on. So after any calls, an element gives the invocations that were added before it was
first asked, in increasing order of priority, and those of one priority in the order in which they
were added.

A hook visits the invocations one after the other. Hooks that end what others began go from the last
to the first. The first invocation that fails is the last one that is visited.

## Main definitions

* `Element.Call`, `Element.after`: the calls on an element, and what they make of it
* `Priority.Ordered`: a list in increasing order of a key, with ties in the order of another list
* `Hook.Visits`, `Hook.VisitsUpToFailure`: what visits one after the other give

## Main results

* `Element.composed_after`: the invocations that an element gives after calls
* `Hook.visitsUpToFailure_run`: whom a hook visits
* `Element.composed_frozen`: both, for all calls
-/

namespace Stencil

/-! ### Order of priority -/

/-- `sorted` has the items in increasing order of the key, and those of one key in the order in
which they stand among the items. -/
structure Priority.Ordered {α : Type} (key : α → Int) (items sorted : List α) : Prop where
  perm : sorted.Perm items
  increasing : sorted.Pairwise fun first later => key first ≤ key later
  ties (place : Int) : sorted.filter (key · = place) = items.filter (key · = place)

theorem Priority.ordered_sort {α : Type} (key : α → Int) (items : List α) :
    Ordered key items (sort key items) where
  perm := sort_perm items
  increasing := pairwise_sort items
  ties _ := filter_sort (fun _ h => of_decide_eq_true h) items

/-! ### Calls on an element -/

namespace Element

variable {ι : Type}

/-- A call on an element. -/
inductive Call (ι : Type) where
  | addAttribute (attr : Markup.Attribute)
  | addInvocation (invocation : ι) (priority : Int)
  /-- Asks for the invocations. -/
  | compose

namespace Call

/-- Whether the call asks for the invocations. -/
def isCompose : Call ι → Bool
  | .compose => true
  | _ => false

/-- The attribute that a call adds. -/
def attribute? : Call ι → Option Markup.Attribute
  | .addAttribute attr => some attr
  | _ => none

/-- The invocation that a call adds, with its priority. -/
def invocation? : Call ι → Option (ι × Int)
  | .addInvocation invocation priority => some (invocation, priority)
  | _ => none

end Call

/-- The element after a call. -/
def take (element : Element ι) : Call ι → Element ι
  | .addAttribute attr => element.addAttribute attr
  | .addInvocation invocation priority => element.addInvocation invocation priority
  | .compose => element.compose.2

/-- The element after calls, one after the other. -/
def after (element : Element ι) (calls : List (Call ι)) : Element ι :=
  calls.foldl take element

/-- The invocations that calls add before one of them asks for the invocations. -/
def addedInTime (calls : List (Call ι)) : List (ι × Int) :=
  (calls.takeWhile fun call => !call.isCompose).filterMap Call.invocation?

theorem after_append (element : Element ι) (first second : List (Call ι)) :
    element.after (first ++ second) = (element.after first).after second :=
  List.foldl_append

/-- Attributes stay in the order in which they are added. -/
theorem attributes_after (element : Element ι) (calls : List (Call ι)) :
    (element.after calls).attributes = element.attributes ++ calls.filterMap Call.attribute? := by
  induction calls generalizing element with
  | nil => exact (List.append_nil _).symm
  | cons call rest ih =>
    refine (ih (element.take call)).trans ?_
    cases call with
    | addAttribute attr => exact List.append_assoc ..
    | addInvocation invocation priority =>
      have hkept : (element.addInvocation invocation priority).attributes = element.attributes := by
        unfold addInvocation
        split <;> rfl
      exact congrArg (· ++ _) hkept
    | compose => rfl

theorem composed_of_some {element : Element ι} {invocations : List ι}
    (h : element.composed? = some invocations) : element.composed = invocations := by
  rw [composed, h]

/-- An element with more invocations; they count unless its invocations have been asked for. -/
def withInvocations (element : Element ι) (added : List (ι × Int)) : Element ι :=
  { element with invocations := element.invocations ++ added }

theorem composed_withInvocations_nil (element : Element ι) :
    (element.withInvocations []).composed = element.composed := by
  rw [withInvocations, List.append_nil]

theorem composed_withInvocations_of_some {element : Element ι} {invocations : List ι}
    (h : element.composed? = some invocations) (added : List (ι × Int)) :
    (element.withInvocations added).composed = invocations :=
  composed_of_some h

/-- After calls an element gives what it would give with the invocations that were added in time. By
induction on the calls: once the invocations have been asked for, no call changes them. -/
theorem composed_after (element : Element ι) (calls : List (Call ι)) :
    (element.after calls).composed = (element.withInvocations (addedInTime calls)).composed := by
  induction calls generalizing element with
  | nil => exact (composed_withInvocations_nil element).symm
  | cons call rest ih =>
    refine (ih (element.take call)).trans ?_
    cases call with
    | addAttribute attr => rfl
    | addInvocation invocation priority =>
      -- What is added comes too late if the invocations are composed already.
      cases hcomposed : element.composed? with
      | some invocations =>
        have htake : element.take (.addInvocation invocation priority) = element := by
          simp only [take, addInvocation, hcomposed]
        rw [htake, composed_withInvocations_of_some hcomposed,
          composed_withInvocations_of_some hcomposed]
      | none =>
        have htake : element.take (.addInvocation invocation priority) =
            element.withInvocations [(invocation, priority)] := by
          simp only [take, addInvocation, hcomposed, withInvocations]
        have hadded : addedInTime (.addInvocation invocation priority :: rest) =
            [(invocation, priority)] ++ addedInTime rest := rfl
        rw [htake, hadded, withInvocations, withInvocations, withInvocations, List.append_assoc]
    | compose =>
      have hkept : ((element.take .compose).withInvocations (addedInTime rest)).composed? =
          some element.composed := rfl
      exact (composed_of_some hkept).trans (composed_withInvocations_nil element).symm

/-- What was given once is given again. -/
theorem composed_after_compose (element : Element ι) (calls : List (Call ι)) :
    ((element.take .compose).after calls).composed = element.composed :=
  composed_after element (.compose :: calls) |>.trans (composed_withInvocations_nil element)

end Element

/-! ### Visits -/

namespace Hook

variable {ι ε σ : Type} {act : ι → Hook → EStateM ε σ Unit} {hook : Hook}

/-- The outcome of visits, one after the other from a state on: each is made in the state that the
one before has left, and one that fails is the last. -/
inductive Visits (act : ι → Hook → EStateM ε σ Unit) (hook : Hook) :
    σ → List ι → EStateM.Result ε σ Unit → Prop
  | done (s : σ) : Visits act hook s [] (.ok () s)
  | next {s t : σ} {invocation : ι} {later : List ι} {outcome : EStateM.Result ε σ Unit}
      (hact : (act invocation hook).run s = .ok () t) (hlater : Visits act hook t later outcome) :
      Visits act hook s (invocation :: later) outcome
  | failed {s t : σ} {invocation : ι} {e : ε}
      (hact : (act invocation hook).run s = .error e t) :
      Visits act hook s [invocation] (.error e t)

/-- The outcome of visits in the given order, up to the first that fails. -/
def VisitsUpToFailure (act : ι → Hook → EStateM ε σ Unit) (hook : Hook) (s : σ) (order : List ι)
    (outcome : EStateM.Result ε σ Unit) : Prop :=
  ∃ visited, visited <+: order ∧ Visits act hook s visited outcome ∧
    (visited = order ∨ ∃ e t, outcome = .error e t)

theorem visitsUpToFailure_forM (order : List ι) (s : σ) :
    VisitsUpToFailure act hook s order ((order.forM (act · hook)).run s) := by
  induction order generalizing s with
  | nil => exact ⟨[], List.prefix_rfl, .done s, .inl rfl⟩
  | cons invocation rest ih =>
    simp only [List.forM_eq_forM, List.forM_cons, EStateM.run_bind] at ih ⊢
    cases hact : (act invocation hook).run s with
    | error e t => exact ⟨[invocation], ⟨rest, rfl⟩, .failed hact, .inr ⟨e, t, rfl⟩⟩
    | ok _ t =>
      obtain ⟨visited, hvisited, hvisits, hall⟩ := ih t
      exact ⟨invocation :: visited, List.cons_prefix_cons.2 ⟨rfl, hvisited⟩, .next hact hvisits,
        hall.imp_left (congrArg (invocation :: ·))⟩

/-- A hook visits the invocations from the first to the last, or in reverse if it ends what others
began. -/
theorem visitsUpToFailure_run (act : ι → Hook → EStateM ε σ Unit) (hook : Hook)
    (invocations : List ι) (s : σ) :
    VisitsUpToFailure act hook s
      (if hook = .afterChildren ∨ hook = .afterTagClose ∨ hook = .afterElement
        then invocations.reverse else invocations)
      ((hook.run act invocations).run s) := by
  have horder : hook.order invocations =
      if hook = .afterChildren ∨ hook = .afterTagClose ∨ hook = .afterElement
        then invocations.reverse else invocations := by
    cases hook <;> rfl
  rw [← horder]
  exact visitsUpToFailure_forM (hook.order invocations) s

end Hook

/-- **Frozen order.** After any calls on a new element it gives the invocations that were added
before it was first asked for them, in increasing order of priority and with ties in the order of
adding. It has given the same whenever it was asked during the calls, and its attributes stand in
the order of adding. Each hook visits the invocations in that order, or in reverse if it ends what
others began, and the first that fails is the last that is visited. -/
theorem Element.composed_frozen {ι : Type} (name : String) (calls : List (Call ι)) :
    let element := (ofName name).after calls
    (∃ sorted, Priority.Ordered (·.2) (addedInTime calls) sorted ∧
        element.compose.1 = sorted.map (·.1)) ∧
      (∀ before later, calls = before ++ .compose :: later →
        ((ofName name).after before).compose.1 = element.compose.1) ∧
      element.attributes = calls.filterMap Call.attribute? ∧
      ∀ (ε σ : Type) (act : ι → Hook → EStateM ε σ Unit) (hook : Hook) (s : σ),
        Hook.VisitsUpToFailure act hook s
          (if hook = .afterChildren ∨ hook = .afterTagClose ∨ hook = .afterElement
            then element.compose.1.reverse else element.compose.1)
          ((hook.run act element.compose.1).run s) := by
  intro element
  refine ⟨⟨Priority.sort (·.2) (addedInTime calls), Priority.ordered_sort _ _, ?_⟩, ?_, ?_, ?_⟩
  · exact composed_after (ofName name) calls
  · rintro before later rfl
    have hafter : element = (((ofName name).after before).take .compose).after later :=
      after_append (ofName name) before (.compose :: later)
    rw [hafter]
    exact (composed_after_compose _ later).symm
  · exact attributes_after (ofName name) calls
  · intro ε σ act hook s
    exact Hook.visitsUpToFailure_run act hook element.compose.1 s

end Stencil
