import Stencil.Expression.Term

/-!
# Expressions

An expression is a term, its root, with options: terms under names that say how the value of the
root is to be treated. An expression is written `$` and braces around the root, an at sign and the
options.
-/

namespace Stencil

/-- A root with options. -/
structure Expression where
  root : Term
  options : Entries Term
  deriving Repr, Inhabited

namespace Expression

/-- The expression of a root without options. -/
def ofRoot (root : Term) : Expression := ⟨root, []⟩

/-- The option under `name`. -/
def option? (e : Expression) (name : String) : Option Term :=
  e.options.find? name

/-- Whether there is an option under `name`. -/
def hasOption (e : Expression) (name : String) : Bool :=
  e.options.contains name

/-- The option under `name`, or the null literal. -/
def optionOrNull (e : Expression) (name : String) : Term :=
  (e.option? name).getD .null

/-- Whether no option is left. -/
def isTerminal (e : Expression) : Bool :=
  e.options.isEmpty

/-- The expression with another root. -/
def withRoot (e : Expression) (root : Term) : Expression :=
  { e with root }

/-- The expression with `value` under `name`. -/
def withOption (e : Expression) (name : String) (value : Term) : Expression :=
  { e with options := e.options.insert name value }

/-- The expression without the options under `names`. -/
def withoutOptions (e : Expression) (names : List String) : Expression :=
  { e with options := e.options.without names }

/-- One option; a null literal is left out. -/
def renderOption : String × Term → String
  | (name, .null) => name
  | (name, value) => name ++ "=" ++ value.render

/-- The options, with the at sign in front of them if there are any. -/
def renderOptions : Entries Term → String
  | [] => ""
  | entries => " @ " ++ ", ".intercalate (entries.map renderOption)

/-- The written form of an expression. -/
def render (e : Expression) : String :=
  "$\x7b" ++ e.root.render ++ renderOptions e.options ++ "\x7d"

end Expression

end Stencil
