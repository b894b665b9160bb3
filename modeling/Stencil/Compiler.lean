import Stencil.Command.Watcher
import Stencil.Walk

/-!
# The compiler

A compiler is made from options and compiles any number of templates: it reads a template, walks over
its tree, and delivers the commands through the checks.

## Main definitions

* `Options`: what can be set
* `Compiler.ofOptions`: the compiler of options, which are checked
* `Compiler.compile`: the compilation of a template
-/

namespace Stencil

/-- The names that the runtime provides unless the options say otherwise. -/
def defaultGlobals : List String :=
  ["bindings", "component", "currentDesign", "currentNode", "currentPage", "currentSession",
    "currentStyle", "inheritedPageProperties", "log", "out", "pageManager", "pageProperties",
    "properties", "reader", "request", "resource", "resourceResolver", "response", "sling",
    "wcmmode"]

/-- What can be set. -/
structure Options where
  /-- The number of bytes read at a time. -/
  bufferSize : Nat
  /-- The names that the runtime provides. -/
  globals : List String
  /-- What is done about variables that have the name of a global. -/
  shadowPolicy : ShadowPolicy
  /-- Whether names that are not declared are reported. -/
  strict : Bool
  /-- The options of filters that are left out. -/
  disabledFilters : List String
  deriving DecidableEq, Repr

/-- The options if nothing is set. -/
def Options.default : Options := ⟨8192, defaultGlobals, .warn, false, []⟩

/-- A compiler. -/
structure Compiler where
  options : Options
  filters : Pipeline
  directives : Registry

/-- The outcome of compiling a template. -/
structure Compilation where
  commands : List Command
  diagnostics : List Diagnostic
  /-- The number of elements in the template. -/
  elements : Nat
  /-- The number of expressions that went through the filters. -/
  expressions : Nat
  deriving Repr

/-- Whether there is an error among the diagnostics. -/
def Compilation.hasErrors (compilation : Compilation) : Bool :=
  Diagnostic.anyError compilation.diagnostics

namespace Compiler

/-- The compiler of options: globals are identifiers, and only filters that exist are left out. -/
def ofOptions (options : Options) : Except SettingFault Compiler :=
  match options.globals.find? fun name => !isIdentifier name with
  | some name => .error (.badGlobal name)
  | none =>
    match options.disabledFilters.find? fun name => !Pipeline.builtin.options.contains name with
    | some name => .error (.unknownFilter name)
    | none => .ok ⟨options, .without options.disabledFilters, .builtin⟩

/-- What is fixed before each compilation. -/
def setup (compiler : Compiler) : Setup where
  filters := compiler.filters
  globals := compiler.options.globals.map Text.lower
  strict := compiler.options.strict

/-- The checks that commands go through. -/
def checks (compiler : Compiler) : List Watcher :=
  [.ofGlobals compiler.options.globals compiler.options.shadowPolicy, .balance .start]

/-- The session after the walk over a template. -/
def walk (compiler : Compiler) (template : Markup.Template) : Except Failure Session :=
  match (template.emit compiler.directives).run (Session.start compiler.setup) with
  | .ok _ session => .ok session
  | .error failure _ => .error failure

/-- The compilation of a template. -/
def compileTemplate (compiler : Compiler) (template : Markup.Template) :
    Except Failure Compilation := do
  let session ← compiler.walk template
  let delivery := collect session.commands compiler.checks ⟨session.reports, []⟩
  match delivery.failure? with
  | some failure => .error failure
  | none =>
    .ok
      { commands := delivery.output
        diagnostics := delivery.report.diagnostics.reverse
        elements := template.elementCount
        expressions := session.expressions }

/-- The compilation of the bytes of a template. -/
def compile (compiler : Compiler) (bytes : List UInt8) : Except Failure Compilation := do
  compiler.compileTemplate (← Markup.Template.parse compiler.options.bufferSize bytes)

end Compiler

end Stencil
