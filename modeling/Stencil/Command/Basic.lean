import Stencil.Expression.Term
import Stencil.Location
import Stencil.Text.Basic

/-!
# Commands

A compiled template is a list of commands: text and variables to write, and blocks that bind a
variable, stand under a condition, repeat, or define a procedure.

## Main definitions

* `Command`: one command
* `Command.opens?`, `Command.closes?`: the block that a command begins or ends
* `Command.declared`: the variables that a command declares
* `Command.render`: the written form
-/

namespace Stencil

/-- The kinds of blocks. -/
inductive Block where
  | binding
  | conditional
  | loop
  | procedure
  deriving DecidableEq, Repr

/-- What a block is called in messages. -/
def Block.describe : Block → String
  | .binding => "variable binding"
  | .conditional => "conditional"
  | .loop => "loop"
  | .procedure => "procedure"

/-- One command of a compiled template. -/
inductive Command where
  /-- Binds a variable up to the matching `bindingEnd`. -/
  | bindingStart (name : String) (value : Term) (location : Location)
  | bindingEnd
  /-- Binds a variable in the rest of the document. -/
  | globalBinding (name : String) (value : Term) (location : Location)
  /-- Goes on to the matching `conditionalEnd` only if the variable is as expected. -/
  | conditionalStart (name : String) (expected : Bool)
  | conditionalEnd
  /-- Repeats what follows up to the matching `loopEnd` for each item of a list. -/
  | loopStart (list item index : String) (location : Location)
  | loopEnd
  | outText (text : String)
  | outVariable (name : String)
  /-- Defines a procedure by what follows up to the matching `procedureEnd`. -/
  | procedureStart (name : String) (parameters : List String) (location : Location)
  | procedureEnd
  /-- Calls the procedure that one variable holds with the arguments that another one holds. -/
  | procedureCall (template arguments : String)
  deriving Repr, Inhabited

namespace Command

/-- The block that the command begins. -/
def opens? : Command → Option Block
  | .bindingStart .. => some .binding
  | .conditionalStart .. => some .conditional
  | .loopStart .. => some .loop
  | .procedureStart .. => some .procedure
  | _ => none

/-- The block that the command ends. -/
def closes? : Command → Option Block
  | .bindingEnd => some .binding
  | .conditionalEnd => some .conditional
  | .loopEnd => some .loop
  | .procedureEnd => some .procedure
  | _ => none

/-- Where in the source the command comes from, if it says so. -/
def location? : Command → Option Location
  | .bindingStart _ _ location => some location
  | .globalBinding _ _ location => some location
  | .loopStart _ _ _ location => some location
  | .procedureStart _ _ location => some location
  | _ => none

/-- The variables that the command declares, with the location of the declaration. -/
def declared : Command → List (String × Location)
  | .bindingStart name _ location => [(name, location)]
  | .globalBinding name _ location => [(name, location)]
  | .loopStart _ item index location => [(item, location), (index, location)]
  | .procedureStart _ parameters location => parameters.map (·, location)
  | _ => []

/-- The written form of a command, on one line. -/
def render : Command → String
  | .bindingStart name value _ => "let " ++ name ++ " = " ++ value.render
  | .bindingEnd => "end let"
  | .globalBinding name value _ => "global " ++ name ++ " = " ++ value.render
  | .conditionalStart name expected => "if " ++ (if expected then "" else "!") ++ name
  | .conditionalEnd => "end if"
  | .loopStart list item index _ => "for " ++ item ++ ", " ++ index ++ " in " ++ list
  | .loopEnd => "end for"
  | .outText text => "out " ++ Text.quoted text
  | .outVariable name => "out " ++ name
  | .procedureStart name parameters _ =>
    "procedure " ++ name ++ "(" ++ ", ".intercalate parameters ++ ")"
  | .procedureEnd => "end procedure"
  | .procedureCall template arguments => "call " ++ template ++ "(" ++ arguments ++ ")"

end Command

end Stencil
