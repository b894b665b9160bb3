import Stencil.Directive.Invocation

/-!
# Directives

A directive is known by its name. On an element it becomes an invocation, for which names are made
and wrong uses reported.

## Main definitions

* `Directive`: a directive
* `Directive.invoke`: its invocation on an element
* `Registry`: directives by name
-/

namespace Stencil

/-- A directive. -/
inductive Directive where
  | use
  | set
  | template
  | test
  | list
  | repeated
  | call
  | insertion
  | resource
  | element
  | attr
  | text
  | unwrap
  /-- A directive under a name and with a priority of its own that leaves marks. -/
  | probe (name : String) (priority : Int) (settings : Probe)
  deriving DecidableEq, Repr

namespace Directive

/-- The name after `Markup.directiveStart`. -/
def name : Directive → String
  | .use => "use"
  | .set => "set"
  | .template => "template"
  | .test => "test"
  | .list => "list"
  | .repeated => "repeat"
  | .call => "call"
  | .insertion => "include"
  | .resource => "resource"
  | .element => "element"
  | .attr => "attribute"
  | .text => "text"
  | .unwrap => "unwrap"
  | .probe name _ _ => name

/-- The place among the directives of an element: smaller ones are further out. -/
def priority : Directive → Int
  | .use => 1
  | .set => 1
  | .template => 2
  | .test => 10
  | .list => 30
  | .repeated => 30
  | .call => 60
  | .insertion => 70
  | .resource => 70
  | .element => 80
  | .attr => 90
  | .text => 100
  | .unwrap => 110
  | .probe _ priority _ => priority

/-- A new name. -/
def generate : Emit String :=
  modifyGet Session.generate

/-- The identifier of a call; it is reported if there is none. -/
def requiredIdentifier (call : Markup.DirectiveCall) (here : Location) : Emit (Option String) := do
  match call.identifier? with
  | some name => return some name
  | none =>
    modify (Session.report .error here (.needsIdentifier call))
    return none

/-- The variables of a loop over items named by the call. -/
def loopNames (call : Markup.DirectiveCall) : Emit LoopNames := do
  let item := call.identifier?.getD "item"
  let list ← generate
  let index ← generate
  return { list, item, index, status := item ++ "List" }

/-- The invocation of a template: its options are the parameters, and its name is known in the rest
of the document. -/
def invokeTemplate (call : Markup.DirectiveCall) (source : Written) : Emit Invocation := do
  match ← requiredIdentifier call source.location with
  | none => return .inert
  | some name =>
    if source.expression.root.isNull then pure ()
    else modify (Session.report .warning source.location (.ignoresExpression call))
    modify (Session.declareGlobal name source.location)
    return .template name source.expression.options.names source.location

/-- The invocation of a directive on an element. -/
def invoke (directive : Directive) (call : Markup.DirectiveCall) (source : Written) :
    Emit Invocation :=
  match directive with
  | .use => return .use (call.identifier?.getD "useBean") source
  | .set => do
    match ← requiredIdentifier call source.location with
    | none => return .inert
    | some name => return .set name source
  | .template => invokeTemplate call source
  | .test => do
    match call.identifier? with
    | some name => return .test name true source
    | none => return .test (← generate) false source
  | .list => return .list (← loopNames call) source
  | .repeated => return .repeated (← loopNames call) source
  | .call => do
    let procedure ← generate
    let arguments ← generate
    return .call procedure arguments source
  | .insertion => return .insertion "include" (← generate) source
  | .resource => return .insertion "resource" (← generate) source
  | .element => return .element (← generate) source
  | .attr => return .attr call.identifier? (← generate) source
  | .text => return .text (← generate) source
  | .unwrap => do
    if source.expression.root.isNull then return .unwrap none
    else return .unwrap (some (← generate, source))
  | .probe name _ settings =>
    match ({ settings with label := name } : Probe).check "invoke" with
    | .ok () => return .probe { settings with label := call.identifier?.getD name }
    | .error failure => throw failure

end Directive

/-- Directives by name. -/
abbrev Registry := Entries Directive

namespace Registry

/-- The registry with one more directive, in place of one of the same name. -/
def register (registry : Registry) (directive : Directive) : Registry :=
  registry.insert directive.name directive

/-- The directives of the language. -/
def builtin : Registry :=
  [.use, .set, .template, .test, .list, .repeated, .call, .insertion, .resource, .element, .attr,
    .text, .unwrap].foldl register []

end Registry

end Stencil
