import Stencil.Markup.Tree
import Stencil.Sorted

/-!
# Elements with invocations

An element collects its attributes and the invocations of its directives. The invocations are put in
the order of their priorities once, when they are first asked for; what is added later does not
count.
-/

namespace Stencil

/-- An element with invocations of type `ι`. -/
structure Element (ι : Type) where
  name : String
  attributes : List Markup.Attribute
  /-- The invocations with their priorities, in the order in which they were added. -/
  invocations : List (ι × Int)
  /-- The invocations in order of priority, once they have been asked for. -/
  composed? : Option (List ι)

namespace Element

variable {ι : Type}

/-- An element without attributes and invocations. -/
def ofName (name : String) : Element ι := ⟨name, [], [], none⟩

/-- The element with one more attribute. -/
def addAttribute (element : Element ι) (attr : Markup.Attribute) : Element ι :=
  { element with attributes := element.attributes ++ [attr] }

/-- The element with one more invocation, unless its invocations have been asked for. -/
def addInvocation (element : Element ι) (invocation : ι) (priority : Int) : Element ι :=
  match element.composed? with
  | some _ => element
  | none => { element with invocations := element.invocations ++ [(invocation, priority)] }

/-- The number of invocations. -/
def count (element : Element ι) : Nat :=
  element.invocations.length

/-- The invocations in order of priority. -/
def composed (element : Element ι) : List ι :=
  match element.composed? with
  | some invocations => invocations
  | none => (Priority.sort (·.2) element.invocations).map (·.1)

/-- The invocations in order of priority, and the element that keeps them. -/
def compose (element : Element ι) : List ι × Element ι :=
  (element.composed, { element with composed? := some element.composed })

end Element

end Stencil
