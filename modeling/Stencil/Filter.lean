import Stencil.Expression.Basic
import Stencil.Failure
import Stencil.Sorted

/-!
# Filters

A filter acts on an expression that has a certain option: it replaces the root, mostly by the call
of a runtime function, and takes away the options that it owns. A pipeline is a list of filters in
increasing order of priority, no two of which own the same option.

## Main definitions

* `Filter`, `Filter.apply`: one filter
* `Pipeline`, `Pipeline.apply`: filters one after the other
* `Pipeline.register`: one more filter
* `Pipeline.without`: the filters of the language, except some
-/

namespace Stencil

/-- A rule that replaces the root of expressions with a certain option. -/
structure Filter where
  /-- The option that sets the filter to work. -/
  option : String
  /-- Further options that the filter uses. -/
  consumed : List String
  priority : Int
  /-- The new root, from the old one and the values of the owned options. -/
  replacement : Term → List (Option Term) → Term

namespace Filter

/-- The options that belong to the filter. -/
def owned (filter : Filter) : List String :=
  filter.option :: filter.consumed

/-- The expression after the filter. -/
def apply (filter : Filter) (e : Expression) : Expression :=
  if e.hasOption filter.option then
    (e.withRoot (filter.replacement e.root (filter.owned.map e.option?))).withoutOptions filter.owned
  else e

/-- A filter that calls the function named like its option with the root and the values of its
options, null literals where there are none. -/
def calling (option : String) (consumed : List String) (priority : Int) : Filter where
  option
  consumed
  priority
  replacement root values := .call option (root :: values.map (·.getD .null))

/-- The entries of those options that have a value. -/
def present (names : List String) (values : List (Option Term)) : Entries Term :=
  Entries.ofList ((names.zip values).filterMap fun (name, value?) => value?.map (name, ·))

/-- The filter `i18n` localises the root; `locale` and `hint` say how. -/
def i18n : Filter where
  option := "i18n"
  consumed := ["locale", "hint"]
  priority := 10
  replacement root values := .call "i18n" [root, .map (present ["locale", "hint"] values.tail)]

/-- The filter `format` puts values in the place of numbers between braces. -/
def format : Filter := calling "format" [] 20

/-- The filter `join` joins the items of the root. -/
def join : Filter := calling "join" [] 30

/-- The option that says how an expression is escaped. -/
def contextOption : String := "context"

/-- The filter `context` escapes the root for where it is written. -/
def context : Filter where
  option := contextOption
  consumed := []
  priority := 100
  replacement root values := .call "xss" (root :: values.map (·.getD .null))

end Filter

/-- Filters in the order in which they act. -/
abbrev Pipeline := List Filter

namespace Pipeline

/-- The filters of the language. -/
def builtin : Pipeline :=
  [.i18n, .format, .join, .context]

/-- The filters of the language except those that act on one of `disabled`. -/
def without (disabled : List String) : Pipeline :=
  builtin.filter fun filter => !disabled.contains filter.option

/-- The options that act, in order. -/
def options (pipeline : Pipeline) : List String :=
  pipeline.map (·.option)

/-- The options that belong to some filter. -/
def owned (pipeline : Pipeline) : List String :=
  pipeline.flatMap Filter.owned

/-- The pipeline with one more filter. An option can belong to one filter only. -/
def register (pipeline : Pipeline) (filter : Filter) : Except SettingFault Pipeline :=
  match filter.owned.find? pipeline.owned.contains with
  | some option => .error (.optionTaken option filter.option)
  | none => .ok (Priority.insert Filter.priority filter pipeline)

/-- The expression after all filters. -/
def apply (pipeline : Pipeline) (e : Expression) : Expression :=
  pipeline.foldl (fun e filter => filter.apply e) e

/-- The filter that an option belongs to. -/
def filterFor? (pipeline : Pipeline) (option : String) : Option Filter :=
  pipeline.find? fun filter => filter.owned.contains option

end Pipeline

end Stencil
