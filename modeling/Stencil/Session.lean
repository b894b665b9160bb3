import Stencil.Command.Stream
import Stencil.Diagnostic
import Stencil.Filter
import Stencil.Scope

/-!
# Sessions

A session is the state of one compilation: the commands written so far, the declarations in force,
and the diagnostics. Each operation writes its command and keeps the scope in step with the blocks
of the stream.

## Main definitions

* `Session`: the state
* `Emit`: what runs on a session and may fail, keeping the session as it was at the failure
* `Session.transform`: the expression that filters leave, with its names checked
* `Session.bind`, `unbind`, `startLoop`, `endLoop`, `startProcedure`, `endProcedure`: blocks
-/

namespace Stencil

/-- Where in the markup an expression is written. -/
inductive Placement where
  | text
  | attributeValue
  | uri
  | comment
  | elementName
  deriving DecidableEq, Repr

/-- The value of the context option for a placement. -/
def Placement.label : Placement → String
  | .text => "text"
  | .attributeValue => "attribute"
  | .uri => "uri"
  | .comment => "comment"
  | .elementName => "elementName"

/-- The placement of the value of an attribute. -/
def Placement.ofAttribute (name : String) : Placement :=
  if Markup.isUriAttribute name then .uri else .attributeValue

/-- Why a variable is declared. -/
inductive DeclarationKind where
  /-- By a directive. -/
  | bound
  /-- By the compiler, under a name of its own. -/
  | temporary
  | loopItem
  | loopIndex
  | parameter
  deriving DecidableEq, Repr

/-- The declaration of a variable. -/
structure Declaration where
  kind : DeclarationKind
  location : Location
  deriving DecidableEq, Repr

/-- What is fixed before a compilation. -/
structure Setup where
  filters : Pipeline
  /-- Names that the runtime provides, in lower case. -/
  globals : List String
  /-- Whether a name that is not declared is reported. -/
  strict : Bool

/-- The state of a compilation. -/
structure Session where
  setup : Setup
  stream : Stream
  scope : Scope Declaration
  /-- The names declared for the whole document, in lower case, each with its latest declaration. -/
  globals : Entries Location
  /-- The number of parameters of each open procedure, innermost first. -/
  procedures : List Nat
  /-- The number of names that the compiler has made. -/
  symbols : Nat
  /-- The diagnostics, the latest first. -/
  reports : List Diagnostic
  /-- The number of expressions transformed. -/
  expressions : Nat
  /-- The number of open elements that hold raw text. -/
  rawDepth : Nat

/-- What runs on a session and may fail; the session stays as it is at the failure. -/
abbrev Emit := EStateM Failure Session

namespace Session

/-- The session before the first operation. -/
def start (setup : Setup) : Session where
  setup
  stream := .empty
  scope := .empty
  globals := []
  procedures := []
  symbols := 0
  reports := []
  expressions := 0
  rawDepth := 0

/-- The commands written so far. -/
def commands (s : Session) : List Command :=
  s.stream.commands

/-- The diagnostics so far, first to last. -/
def diagnostics (s : Session) : List Diagnostic :=
  s.reports.reverse

/-- The session with one more diagnostic. -/
def report (severity : Severity) (here : Location) (finding : Finding) (s : Session) : Session :=
  { s with reports := ⟨severity, here, finding⟩ :: s.reports }

/-- The session with one more command. -/
def write (command : Command) (s : Session) : Session :=
  { s with stream := s.stream.write command }

/-- The name that the compiler gives to its `n`th symbol. -/
def symbol (n : Nat) : String :=
  "var_" ++ toString n

/-- A new name. -/
def generate (s : Session) : String × Session :=
  (symbol s.symbols, { s with symbols := s.symbols + 1 })

/-! ### Names -/

/-- Whether a name is bound, declared for the whole document, or provided by the runtime. -/
def resolves (s : Session) (name : String) : Bool :=
  let key := Text.lower name
  s.scope.declares key || s.globals.contains key || s.setup.globals.contains key

/-- Reports the names of a term that do not resolve, if the setup asks for it. -/
def checkNames (root : Term) (here : Location) (s : Session) : Session :=
  if s.setup.strict then
    (root.names.filter fun name => !s.resolves name).foldl
      (fun s name => s.report .warning here (.unresolved name)) s
  else s

/-- Declares a variable. Except for a temporary, it is reported if it hides another one. -/
def declare (name : String) (kind : DeclarationKind) (here : Location) (s : Session) : Session :=
  let s := { s with scope := s.scope.push name ⟨kind, here⟩ }
  if kind ≠ .temporary ∧ 1 < s.scope.count name then s.report .info here (.hides name) else s

/-- Declares a name for the whole document. It is reported if it was declared before. -/
def declareGlobal (name : String) (here : Location) (s : Session) : Session :=
  let key := Text.lower name
  let declared := { s with globals := s.globals.insert key here }
  match s.globals.find? key with
  | some previous => declared.report .info here (.redeclares name previous)
  | none => declared

/-- Undoes the latest declaration. -/
def popVariable : Emit Unit := do
  match (← get).scope.pop? with
  | some (_, scope) => modify fun s => { s with scope }
  | none => throw .scopeUnderflow

/-! ### Expressions -/

/-- The expression with the context of its placement, unless it has a context. -/
def withContext (placement? : Option Placement) (e : Expression) : Expression :=
  match placement? with
  | some placement =>
    if e.hasOption Filter.contextOption then e
    else e.withOption Filter.contextOption (.text placement.label)
  | none => e

/-- The expression that the filters leave. -/
def transform (e : Expression) (placement? : Option Placement) (here : Location) (s : Session) :
    Expression × Session :=
  let filtered := s.setup.filters.apply (withContext placement? e)
  let s := s.checkNames filtered.root here
  (filtered, { s with expressions := s.expressions + 1 })

/-- The expression that the filters leave in the content of an element. In raw text it should say how
it is escaped. -/
def transformText (e : Expression) (here : Location) (s : Session) : Expression × Session :=
  let s :=
    if 0 < s.rawDepth ∧ !e.hasOption Filter.contextOption then s.report .warning here .noContext
    else s
  s.transform e (some .text) here

/-- Enters an element that holds raw text. -/
def enterRawText (s : Session) : Session :=
  { s with rawDepth := s.rawDepth + 1 }

/-- Leaves an element that holds raw text. -/
def leaveRawText (s : Session) : Session :=
  { s with rawDepth := s.rawDepth - 1 }

/-! ### Output -/

/-- Writes text. -/
def outText (text : String) : Session → Session :=
  write (.outText text)

/-- Writes the value of a variable. -/
def outVariable (name : String) : Session → Session :=
  write (.outVariable name)

/-- Calls a procedure. -/
def callProcedure (template arguments : String) : Session → Session :=
  write (.procedureCall template arguments)

/-! ### Blocks -/

/-- Binds a variable. -/
def bind (name : String) (value : Term) (here : Location) (s : Session) : Session :=
  (s.write (.bindingStart name value here)).declare name .bound here

/-- Binds a new variable. -/
def bindTemporary (value : Term) (here : Location) (s : Session) : String × Session :=
  let (name, s) := s.generate
  (name, (s.write (.bindingStart name value here)).declare name .temporary here)

/-- Ends the binding of the latest variable. -/
def unbind : Emit Unit := do
  popVariable
  modify (write .bindingEnd)

/-- Binds a variable in the rest of the document. -/
def bindGlobal (name : String) (value : Term) (here : Location) (s : Session) : Session :=
  (s.write (.globalBinding name value here)).declareGlobal name here

/-- Begins a condition. -/
def startConditional (name : String) (expected : Bool) : Session → Session :=
  write (.conditionalStart name expected)

/-- Ends a condition. -/
def endConditional : Session → Session :=
  write .conditionalEnd

/-- Begins a loop. -/
def startLoop (list item index : String) (here : Location) (s : Session) : Session :=
  ((s.write (.loopStart list item index here)).declare item .loopItem here).declare
    index .loopIndex here

/-- Ends a loop. -/
def endLoop : Emit Unit := do
  popVariable
  popVariable
  modify (write .loopEnd)

/-- Begins a procedure. -/
def startProcedure (name : String) (parameters : List String) (here : Location) (s : Session) :
    Session :=
  -- The number of parameters is kept, to undo their declarations at the end.
  let s := parameters.foldl (fun s parameter => s.declare parameter .parameter here) s
  let s := { s with procedures := parameters.length :: s.procedures }
  s.write (.procedureStart name parameters here)

/-- Undoes the latest declarations, `n` of them. -/
def popVariables : Nat → Emit Unit
  | 0 => pure ()
  | n + 1 => do
    popVariable
    popVariables n

/-- Ends a procedure. -/
def endProcedure : Emit Unit := do
  match (← get).procedures with
  | [] => throw .scopeUnderflow
  | count :: procedures =>
    modify fun s => { s with procedures }
    popVariables count
    modify (write .procedureEnd)

end Session

end Stencil
