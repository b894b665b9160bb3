import Stencil.Directive.Hook
import Stencil.Session

/-!
# Invocations

An invocation is a directive on one element, with the names it uses and the expression it is given.
It writes commands at the hooks of the element.

## Main definitions

* `Invocation`: what a directive does on an element
* `Invocation.run`: what it writes at a hook
* `Invocation.effect`: what it says about the tags and the content
-/

namespace Stencil

/-- An expression where it is written. -/
structure Written where
  expression : Expression
  location : Location
  deriving Repr, Inhabited

/-- The variables of a loop. -/
structure LoopNames where
  list : String
  item : String
  index : String
  /-- The variable that tells how far the loop is. -/
  status : String
  deriving DecidableEq, Repr, Inhabited

/-- A directive on an element. -/
inductive Invocation where
  /-- Nothing, after a diagnostic. -/
  | inert
  /-- Binds the object that the runtime makes of the expression. -/
  | use (name : String) (source : Written)
  /-- Binds the value of the expression. -/
  | set (name : String) (source : Written)
  /-- Writes the element only if the value is true; under a name given by the author the value stays
  bound. -/
  | test (name : String) (named : Bool) (source : Written)
  /-- Repeats the content for each item. -/
  | list (names : LoopNames) (source : Written)
  /-- Repeats the element for each item. -/
  | repeated (names : LoopNames) (source : Written)
  /-- Defines a procedure by the content. -/
  | template (name : String) (parameters : List String) (location : Location)
  /-- Calls a procedure in place of the content. -/
  | call (procedure arguments : String) (source : Written)
  /-- Writes what a runtime function gives in place of the content. -/
  | insertion (function name : String) (source : Written)
  /-- Writes the value in place of the content. -/
  | text (name : String) (source : Written)
  /-- Writes an attribute, or without a name all those of a map. -/
  | attr (target? : Option String) (name : String) (source : Written)
  /-- Takes the value as the name of the tag. -/
  | element (name : String) (source : Written)
  /-- Leaves out the tags, under a condition if there is one. -/
  | unwrap (condition? : Option (String × Written))
  /-- Leaves marks. -/
  | probe (probe : Probe)
  deriving Repr, Inhabited

namespace Written

/-- The root and the options that the filters leave. -/
def transform (source : Written) (placement? : Option Placement) : Emit Expression :=
  modifyGet (Session.transform source.expression placement? source.location)

/-- Binds the root that the filters leave. -/
def bindRoot (source : Written) (placement? : Option Placement) (name : String) : Emit Unit := do
  let value ← source.transform placement?
  modify (Session.bind name value.root source.location)

/-- Binds a term that is made for the expression. -/
def bind (source : Written) (name : String) (value : Term) : Emit Unit :=
  modify (Session.bind name value source.location)

end Written

namespace LoopNames

/-- Begins the loop and binds its status. -/
def enter (names : LoopNames) (here : Location) : Emit Unit := do
  modify (Session.startLoop names.list names.item names.index here)
  modify (Session.bind names.status
    (.call "listStatus" [.identifier names.index, .identifier names.list]) here)

/-- Ends the status and the loop. -/
def leave : Emit Unit := do
  Session.unbind
  Session.endLoop

end LoopNames

namespace Invocation

/-- What is written before the element. -/
def beforeElement (tag : String) : Invocation → Emit Unit
  | .use name source => do
    let value ← source.transform none
    modify (Session.bindGlobal name (.call "use" [value.root, .map value.options]) source.location)
  | .set name source => do
    let value ← source.transform none
    modify (Session.bindGlobal name value.root source.location)
  | .test name named source => do
    let value ← source.transform none
    -- A value that the author named is for the rest of the document, and never unbound.
    if named then modify (Session.bindGlobal name value.root source.location)
    else modify (Session.bind name value.root source.location)
    modify (Session.startConditional name true)
  | .list names source => do
    source.bindRoot none names.list
    modify (Session.startConditional names.list true)
  | .repeated names source => do
    source.bindRoot none names.list
    names.enter source.location
  | .template name parameters here => modify (Session.startProcedure name parameters here)
  | .element name source => do
    let value ← source.transform (some .elementName)
    source.bind name (.choice value.root value.root (.text tag))
  | .unwrap (some (name, source)) => source.bindRoot none name
  | _ => pure ()

/-- What is written after the attributes. -/
def afterAttributes : Invocation → Emit Unit
  | .attr (some target) name source => do
    source.bindRoot (some (.ofAttribute target)) name
    modify (Session.startConditional name true)
    modify (Session.outText (" " ++ target ++ "=\""))
    modify (Session.outVariable name)
    modify (Session.outText "\"")
    modify Session.endConditional
    Session.unbind
  | .attr none name source => do
    let value ← source.transform none
    source.bind name (.call "attributeMap" [value.root])
    modify (Session.outVariable name)
    Session.unbind
  | _ => pure ()

/-- What is written before the content. -/
def beforeChildren : Invocation → Emit Unit
  | .list names source => names.enter source.location
  | .call procedure arguments source => do
    let value ← source.transform none
    source.bind procedure value.root
    source.bind arguments (.map value.options)
    modify (Session.callProcedure procedure arguments)
    Session.unbind
    Session.unbind
  | .insertion function name source => do
    let value ← source.transform none
    source.bind name (.call function [value.root, .map value.options])
    modify (Session.outVariable name)
    Session.unbind
  | .text name source => do
    let value ← modifyGet (Session.transformText source.expression source.location)
    source.bind name value.root
    modify (Session.outVariable name)
    Session.unbind
  | _ => pure ()

/-- What is written after the content. -/
def afterChildren : Invocation → Emit Unit
  | .list .. => LoopNames.leave
  | _ => pure ()

/-- What is written after the element. -/
def afterElement : Invocation → Emit Unit
  | .test _ named _ => do
    modify Session.endConditional
    if named then pure () else Session.unbind
  | .list .. => do
    modify Session.endConditional
    Session.unbind
  | .repeated .. => do
    LoopNames.leave
    Session.unbind
  | .template .. => Session.endProcedure
  | .element .. => Session.unbind
  | .unwrap (some _) => Session.unbind
  | _ => pure ()

/-- What a probe writes at a hook: its mark in brackets. -/
def writeMark (probe : Probe) (hook : Hook) : Emit Unit :=
  match probe.mark hook with
  | .ok mark => modify (Session.outText ("[" ++ mark ++ "]"))
  | .error failure => throw failure

/-- What an invocation writes at a hook. -/
def run (invocation : Invocation) (hook : Hook) : Emit Unit :=
  match invocation, hook with
  | .probe p, hook => writeMark p hook
  | invocation, .beforeElement tag => invocation.beforeElement tag
  | invocation, .afterAttributes => invocation.afterAttributes
  | invocation, .beforeChildren => invocation.beforeChildren
  | invocation, .afterChildren => invocation.afterChildren
  | invocation, .afterElement => invocation.afterElement
  | _, _ => pure ()

/-- What an invocation says about its element. -/
def effect : Invocation → Effect
  | .template .. => { Effect.none with skip := .always }
  | .unwrap none => { Effect.none with skip := .always }
  | .unwrap (some (name, _)) => { Effect.none with skip := .when name }
  | .call .. => { Effect.none with replaces := true }
  | .insertion .. => { Effect.none with replaces := true }
  | .text .. => { Effect.none with replaces := true }
  | .attr (some target) _ _ =>
    { Effect.none with overrides := Text.eqIgnoringAsciiCase target }
  | .element name _ => { Effect.none with tagVariable := some name }
  | .probe p => p.effect
  | _ => Effect.none

end Invocation

end Stencil
