import Stencil.Sorted
import Stencil.Text.LowerCase

/-!
# Scopes

A scope holds the declarations that are in force. Names are compared in lower case. Each declaration
is kept under its name, where a later one hides an earlier one, and in the order of all
declarations, which says what is undone next.

## Main definitions

* `Scope`: the declarations in force
* `Scope.push`, `Scope.pop?`: one declaration more, one less
* `Scope.all`: the declarations of a name, outermost first
-/

namespace Stencil

/-- The declarations in force. -/
structure Scope (α : Type) where
  /-- The declarations of each name, innermost first. -/
  byName : Entries (List α)
  /-- The names in lower case, in the order of declaration, latest first. -/
  order : List String
  deriving Repr, Inhabited

namespace Scope

variable {α : Type}

/-- The scope without declarations. -/
def empty : Scope α := ⟨[], []⟩

/-- The declarations of a name that is in lower case, innermost first. -/
def under (scope : Scope α) (key : String) : List α :=
  (scope.byName.find? key).getD []

/-- The scope with one more declaration. -/
def push (scope : Scope α) (name : String) (data : α) : Scope α :=
  let key := Text.lower name
  { byName := scope.byName.insert key (data :: scope.under key)
    order := key :: scope.order }

/-- The entries without the innermost declaration of a name. -/
def dropInnermost (byName : Entries (List α)) (key : String) : Entries (List α) :=
  match (byName.find? key).getD [] with
  | _ :: next :: rest => byName.insert key (next :: rest)
  | _ => byName.without [key]

/-- The name of the latest declaration, and the scope without it. -/
def pop? (scope : Scope α) : Option (String × Scope α) :=
  match scope.order with
  | [] => none
  | key :: order => some (key, ⟨dropInnermost scope.byName key, order⟩)

/-- The latest declaration. -/
def peek? (scope : Scope α) : Option (String × α) := do
  let key ← scope.order.head?
  let data ← (scope.under key).head?
  return (key, data)

/-- The declarations of a name, outermost first. -/
def all (scope : Scope α) (name : String) : List α :=
  (scope.under (Text.lower name)).reverse

/-- The innermost declaration of a name. -/
def get? (scope : Scope α) (name : String) : Option α :=
  (scope.under (Text.lower name)).head?

/-- The number of declarations of a name. -/
def count (scope : Scope α) (name : String) : Nat :=
  (scope.all name).length

/-- Whether a name is declared. -/
def declares (scope : Scope α) (name : String) : Bool :=
  scope.byName.contains (Text.lower name)

/-- The number of declarations. -/
def length (scope : Scope α) : Nat :=
  scope.order.length

/-- Whether there is no declaration. -/
def isEmpty (scope : Scope α) : Bool :=
  scope.order.isEmpty

end Scope

end Stencil
