import Stencil.Failure

/-!
# Hooks

While an element is written, the directives on it are called at fixed points, its hooks. Hooks that
end what others began are taken in reverse, so that what the directives open around an element
nests.

Apart from what it writes, a directive can say that the tags of its element are left out, that the
tag has another name, that an attribute is written by the directive, or that the content is. A probe
leaves a mark at each hook, and has the effects and the failure that it is given. It shows in which
order hooks are taken.

## Main definitions

* `Hook`: a point in the writing of an element
* `Effect`: what a directive says about its element
* `Probe`: what leaves marks at hooks
-/

namespace Stencil

/-- A point in the writing of an element. -/
inductive Hook where
  | beforeElement (tag : String)
  | beforeTagOpen
  | beforeAttributes
  | beforeAttribute (name : String)
  | afterAttribute (name : String)
  | afterAttributes
  | afterTagOpen
  | beforeChildren
  | afterChildren
  | beforeTagClose
  | afterTagClose
  | afterElement
  deriving DecidableEq, Repr

namespace Hook

/-- The name of a hook. -/
def label : Hook → String
  | .beforeElement _ => "before_element"
  | .beforeTagOpen => "before_tag_open"
  | .beforeAttributes => "before_attributes"
  | .beforeAttribute _ => "before_attribute"
  | .afterAttribute _ => "after_attribute"
  | .afterAttributes => "after_attributes"
  | .afterTagOpen => "after_tag_open"
  | .beforeChildren => "before_children"
  | .afterChildren => "after_children"
  | .beforeTagClose => "before_tag_close"
  | .afterTagClose => "after_tag_close"
  | .afterElement => "after_element"

/-- The name of the tag or the attribute that a hook is about. -/
def subject : Hook → String
  | .beforeElement tag => tag
  | .beforeAttribute name => name
  | .afterAttribute name => name
  | _ => ""

/-- Whether the hook is taken in reverse. -/
def isBackward : Hook → Bool
  | .afterChildren => true
  | .afterTagClose => true
  | .afterElement => true
  | _ => false

/-- The order in which `invocations` are called at the hook. -/
def order {ι : Type} (hook : Hook) (invocations : List ι) : List ι :=
  if hook.isBackward then invocations.reverse else invocations

/-- Calls the invocations at the hook, up to the first that fails. -/
def run {ι : Type} {m : Type → Type} [Monad m] (hook : Hook) (act : ι → Hook → m Unit)
    (invocations : List ι) : m Unit :=
  (hook.order invocations).forM (act · hook)

end Hook

/-! ### Effects on the tags of an element -/

/-- Whether the tags of an element are left out. -/
inductive TagSkip where
  | never
  | always
  /-- If the variable is true. -/
  | when (name : String)
  deriving DecidableEq, Repr

/-- Of two, what counts for one element: `always` before all else, then the first that is not
`never`. -/
def TagSkip.or : TagSkip → TagSkip → TagSkip
  | .always, _ => .always
  | _, .always => .always
  | .never, skip => skip
  | skip, _ => skip

/-- What a directive says about its element. -/
structure Effect where
  skip : TagSkip
  /-- The variable that holds the name of the tag. -/
  tagVariable : Option String
  /-- The attributes that are not written, because the directive writes them. -/
  overrides : String → Bool
  /-- Whether the content is not written, because the directive writes it. -/
  replaces : Bool

namespace Effect

/-- No effect. -/
def none : Effect := ⟨.never, .none, fun _ => false, false⟩

/-- The effect of both. -/
def and (a b : Effect) : Effect where
  skip := a.skip.or b.skip
  tagVariable := a.tagVariable.or b.tagVariable
  overrides name := a.overrides name || b.overrides name
  replaces := a.replaces || b.replaces

/-- The effect of all. -/
def all (effects : List Effect) : Effect :=
  effects.foldr and none

end Effect

/-! ### Probes -/

/-- What a probe does. -/
structure Probe where
  label : String
  skip : TagSkip
  tagVariable : Option String
  overrides : List String
  replaces : Bool
  /-- The point at which it fails. -/
  fails : Option String
  deriving DecidableEq, Repr

namespace Probe

/-- What the probe says about its element. -/
def effect (probe : Probe) : Effect where
  skip := probe.skip
  tagVariable := probe.tagVariable
  overrides := probe.overrides.contains
  replaces := probe.replaces

/-- Fails if `point` is where the probe does. -/
def check (probe : Probe) (point : String) : Except Failure Unit :=
  if probe.fails = some point then .error (.call probe.label (.refused point)) else .ok ()

/-- The mark at a hook. -/
def mark (probe : Probe) (hook : Hook) : Except Failure String := do
  probe.check hook.label
  return probe.label ++ "." ++ hook.label ++ "(" ++ hook.subject ++ ")"

/-- Adds the mark at a hook to a list of marks, the last one first. -/
def log (probe : Probe) (hook : Hook) : EStateM Failure (List String) Unit := do
  match probe.mark hook with
  | .ok mark => modify (mark :: ·)
  | .error failure => throw failure

end Probe

end Stencil
