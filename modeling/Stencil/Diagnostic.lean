import Stencil.Command.Basic
import Stencil.Markup.Json

/-!
# Diagnostics

A diagnostic is a problem that does not end the compilation: what was found, how bad it is, and where
it is.
-/

namespace Stencil

/-- How bad a problem is. -/
inductive Severity where
  | info
  | warning
  | error
  deriving DecidableEq, Repr

/-- The word for a severity. -/
def Severity.label : Severity → String
  | .info => "info"
  | .warning => "warning"
  | .error => "error"

/-- What was found. -/
inductive Finding where
  /-- A name is not declared. -/
  | unresolved (name : String)
  /-- An expression in raw text does not say how it is to be escaped. -/
  | noContext
  /-- A variable has the name of one that is declared around it. -/
  | hides (name : String)
  /-- A name of the whole document is declared again. -/
  | redeclares (name : String) (previous : Location)
  /-- A directive lacks its identifier. -/
  | needsIdentifier (call : Markup.DirectiveCall)
  /-- A directive has a root that it does not use. -/
  | ignoresExpression (call : Markup.DirectiveCall)
  | unknownDirective (call : Markup.DirectiveCall)
  /-- An expression cannot be read. -/
  | malformed (fault : ExpressionFault)
  /-- A variable has the name of a global. -/
  | shadows (name : String)
  /-- A command ends a block while a block of another kind is the innermost. -/
  | crossed (closing opened : Block)
  /-- A command ends a block while none is open. -/
  | unopened (block : Block)
  /-- A block is open at the end. -/
  | unclosed (block : Block)
  /-- A message given by the caller. -/
  | note (message : String)
  deriving DecidableEq, Repr

/-- The message of a finding. -/
def Finding.message : Finding → String
  | .unresolved name =>
    "Identifier '" ++ name ++ "' is neither declared nor a global binding"
  | .noContext => "Expression inside <script> or <style> has no explicit context, using 'text'"
  | .hides name => "Variable '" ++ name ++ "' hides an outer declaration of the same name"
  | .redeclares name previous =>
    "'" ++ name ++ "' redeclares the global name first declared at " ++ previous.render
  | .needsIdentifier call =>
    call.render ++ " requires an identifier, as in " ++ call.render ++ ".name"
  | .ignoresExpression call =>
    call.render ++ " ignores its expression, only options declare parameters"
  | .unknownDirective call => "Unknown directive " ++ call.render
  | .malformed fault => fault.message
  | .shadows name => "Variable '" ++ name ++ "' shadows the global binding of the same name"
  | .crossed closing opened =>
    "Command stream closes a " ++ closing.describe ++ " while a " ++ opened.describe ++ " is open"
  | .unopened block =>
    "Command stream closes a " ++ block.describe ++ " that was never opened"
  | .unclosed block => "Unclosed " ++ block.describe ++ " in command stream"
  | .note message => message

/-- A problem that does not end the compilation. -/
structure Diagnostic where
  severity : Severity
  location : Location
  finding : Finding
  deriving DecidableEq, Repr

namespace Diagnostic

/-- The message of a diagnostic. -/
def message (diagnostic : Diagnostic) : String :=
  diagnostic.finding.message

/-- The written form `line:column: severity: message`. -/
def render (diagnostic : Diagnostic) : String :=
  diagnostic.location.render ++ ": " ++ diagnostic.severity.label ++ ": " ++ diagnostic.message

/-- A diagnostic as JSON. -/
def json (diagnostic : Diagnostic) : Json :=
  .object [("severity", .text diagnostic.severity.label), ("location", diagnostic.location.json),
    ("message", .text diagnostic.message)]

/-- Whether one of the diagnostics is an error. -/
def anyError (diagnostics : List Diagnostic) : Bool :=
  diagnostics.any fun diagnostic => diagnostic.severity = .error

end Diagnostic

end Stencil
