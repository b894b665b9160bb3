import Stencil.Command.Basic
import Stencil.Markup.Json
import Stencil.Markup.Outline

/-!
# Commands as JSON and as outlines
-/

namespace Stencil.Command

/-- An object with the kind of a command and its parts. -/
def tagged (kind : String) (parts : List (String × Json)) : Json :=
  .object (("command", .text kind) :: parts)

/-- A command as JSON. -/
def json : Command → Json
  | .bindingStart name value location =>
    tagged "variableBindingStart"
      [("variable", .text name), ("expression", value.json), ("location", location.json)]
  | .bindingEnd => tagged "variableBindingEnd" []
  | .globalBinding name value location =>
    tagged "globalBinding"
      [("variable", .text name), ("expression", value.json), ("location", location.json)]
  | .conditionalStart name expected =>
    tagged "conditionalStart" [("variable", .text name), ("expected", .bool expected)]
  | .conditionalEnd => tagged "conditionalEnd" []
  | .loopStart list item index location =>
    tagged "loopStart"
      [("listVariable", .text list), ("itemVariable", .text item), ("indexVariable", .text index),
        ("location", location.json)]
  | .loopEnd => tagged "loopEnd" []
  | .outText text => tagged "outText" [("text", .text text)]
  | .outVariable name => tagged "outVariable" [("variable", .text name)]
  | .procedureStart name parameters location =>
    tagged "procedureStart"
      [("name", .text name), ("parameters", .array (parameters.map .text)),
        ("location", location.json)]
  | .procedureEnd => tagged "procedureEnd" []
  | .procedureCall template arguments =>
    tagged "procedureCall"
      [("templateVariable", .text template), ("argumentsVariable", .text arguments)]

/-- Commands as JSON. -/
def jsonOfList (commands : List Command) : Json :=
  .array (commands.map json)

/-- The outline of a command. -/
def outline : Command → Outline
  | .bindingStart name value location =>
    .record "VariableBindingStart"
      [("variable", .text name), ("expression", value.outline), ("location", location.outline)]
  | .bindingEnd => .word "VariableBindingEnd"
  | .globalBinding name value location =>
    .record "GlobalBinding"
      [("variable", .text name), ("expression", value.outline), ("location", location.outline)]
  | .conditionalStart name expected =>
    .record "ConditionalStart" [("variable", .text name), ("expected", .bool expected)]
  | .conditionalEnd => .word "ConditionalEnd"
  | .loopStart list item index location =>
    .record "LoopStart"
      [("list_variable", .text list), ("item_variable", .text item),
        ("index_variable", .text index), ("location", location.outline)]
  | .loopEnd => .word "LoopEnd"
  | .outText text => .record "OutText" [("text", .text text)]
  | .outVariable name => .record "OutVariable" [("variable", .text name)]
  | .procedureStart name parameters location =>
    .record "ProcedureStart"
      [("name", .text name), ("parameters", .list (parameters.map .text)),
        ("location", location.outline)]
  | .procedureEnd => .word "ProcedureEnd"
  | .procedureCall template arguments =>
    .record "ProcedureCall"
      [("template_variable", .text template), ("arguments_variable", .text arguments)]

/-- The outline of a command list. -/
def outlineOfList (commands : List Command) : Outline :=
  .list (commands.map outline)

end Stencil.Command
