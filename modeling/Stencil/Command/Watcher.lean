import Stencil.Command.Delivery

/-!
# Watchers

The observers that the library has: two checks of a compiled template, and three that show or stop a
delivery. The check of balance follows the commands and reports a block that is ended by a command
of another kind, a command that ends no block, and a block that is not ended.

## Main definitions

* `Balance`: the blocks open at a point of a command list
* `Watcher`: an observer of commands
-/

namespace Stencil

/-! ### Balance of blocks -/

/-- The blocks open at a point of a command list. -/
structure Balance where
  /-- The open blocks with the location of their start, innermost first. -/
  opened : List (Block × Location)
  /-- The latest location that a command has given. -/
  latest : Location
  deriving DecidableEq, Repr

namespace Balance

/-- Before the first command. -/
def start : Balance := ⟨[], .nowhere⟩

/-- After a command that ends a block. -/
def close (balance : Balance) (block : Block) : Balance × List Diagnostic :=
  match balance.opened with
  | [] => (balance, [⟨.error, balance.latest, .unopened block⟩])
  | (innermost, here) :: rest =>
    ({ balance with opened := rest },
      if innermost = block then [] else [⟨.error, here, .crossed block innermost⟩])

/-- After a command. A condition gives no location and has the latest one. -/
def step (balance : Balance) (command : Command) : Balance × List Diagnostic :=
  match command.closes? with
  | some block => balance.close block
  | none =>
    let latest := command.location?.getD balance.latest
    match command.opens? with
    | some block => (⟨(block, latest) :: balance.opened, latest⟩, [])
    | none => ({ balance with latest }, [])

/-- At the end: the blocks that are not ended, innermost first. -/
def finish (balance : Balance) : List Diagnostic :=
  balance.opened.map fun (block, here) => ⟨.error, here, .unclosed block⟩

end Balance

/-! ### Watchers -/

/-- What is done about a variable that has the name of a global. -/
inductive ShadowPolicy where
  | ignore
  | warn
  | error
  deriving DecidableEq, Repr

/-- The severity of what is reported. -/
def ShadowPolicy.severity? : ShadowPolicy → Option Severity
  | .ignore => none
  | .warn => some .warning
  | .error => some .error

/-- The variables that a command declares under the name of a global; the globals are in lower
case. -/
def Command.shadowing (command : Command) (globals : List String) : List (String × Location) :=
  command.declared.filter fun (name, _) => globals.contains (Text.lower name)

/-- The line that shows what a command begins or writes. -/
def Command.trace? : Command → Option String
  | .bindingStart name value here =>
    some ("variable_binding_start " ++ name ++ " " ++ value.render ++ " " ++ here.render)
  | .bindingEnd => some "variable_binding_end"
  | .globalBinding name value here =>
    some ("global_binding " ++ name ++ " " ++ value.render ++ " " ++ here.render)
  | .conditionalStart name expected =>
    some ("conditional_start " ++ name ++ " " ++ if expected then "true" else "false")
  | .loopStart list item index here =>
    some ("loop_start " ++ list ++ " " ++ item ++ " " ++ index ++ " " ++ here.render)
  | .outText text => some ("out_text " ++ text)
  | .procedureStart name parameters here =>
    some ("procedure_start " ++ name ++ " " ++ "/".intercalate parameters ++ " " ++ here.render)
  | _ => none

/-- An observer of commands. -/
inductive Watcher where
  /-- Reports variables that have the name of a global; the globals are in lower case. -/
  | shadow (globals : List String) (policy : ShadowPolicy)
  /-- Reports blocks that do not match. -/
  | balance (state : Balance)
  /-- Shows each command and the number of diagnostics, under a name. -/
  | log (name : String)
  /-- Stops at a command with this written form. -/
  | refuse (command : String)
  /-- Shows what each command begins or writes. -/
  | trace
  deriving DecidableEq, Repr

namespace Watcher

/-- The watcher for variables that have the name of a global. -/
def ofGlobals (globals : List String) (policy : ShadowPolicy) : Watcher :=
  .shadow (globals.map Text.lower) policy

/-- What is reported of a command that declares variables under names of globals. -/
def shadowReports (globals : List String) (policy : ShadowPolicy) (command : Command) :
    List Diagnostic :=
  match policy.severity? with
  | none => []
  | some severity =>
    (command.shadowing globals).map fun (name, here) => ⟨severity, here, .shadows name⟩

/-- The reaction to a command. -/
def onCommand (watcher : Watcher) (command : Command) (report : Report) : Reaction Watcher :=
  match watcher with
  | .shadow globals policy =>
    ⟨watcher, report.addAll (shadowReports globals policy command), none⟩
  | .balance state =>
    let (state, found) := state.step command
    ⟨.balance state, report.addAll found, none⟩
  | .log name =>
    ⟨watcher, report.addLine (name ++ ": " ++ command.render ++ " ("
      ++ toString report.diagnostics.length ++ ")"), none⟩
  | .refuse refused =>
    ⟨watcher, report,
      if command.render = refused then some (.call "handler" (.refused refused)) else none⟩
  | .trace =>
    match command.trace? with
    | some line => ⟨watcher, report.addLine line, none⟩
    | none => ⟨watcher, report, none⟩

/-- The reaction to the end. -/
def onDone (watcher : Watcher) (report : Report) : Reaction Watcher :=
  match watcher with
  | .balance state => ⟨.balance { state with opened := [] }, report.addAll state.finish, none⟩
  | _ => ⟨watcher, report, none⟩

instance : Observer Watcher := ⟨onCommand, onDone⟩

end Watcher

end Stencil
