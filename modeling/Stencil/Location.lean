/-!
# Locations in a source text

A location is a line and a column, both counted from one in characters. A line feed ends a line;
every other character takes one column.

## Main definitions

* `Location.next`: the location after one character
* `Location.advance`: the location after a run of characters
* `Location.shift`: the location some columns further on the same line
-/

namespace Stencil

/-- A position in a source text. -/
structure Location where
  line : Nat
  column : Nat
  deriving DecidableEq, Repr, Inhabited

namespace Location

/-- The location of the first character of a text. -/
def start : Location := ⟨1, 1⟩

/-- The location of what no source text holds. -/
def nowhere : Location := ⟨0, 0⟩

/-- The location after the character `c`. -/
def next (here : Location) (c : Char) : Location :=
  if c = '\n' then ⟨here.line + 1, 1⟩ else ⟨here.line, here.column + 1⟩

/-- The location after the characters `cs`. -/
def advance (here : Location) (cs : List Char) : Location :=
  cs.foldl next here

/-- The location `n` columns further on the same line. -/
def shift (here : Location) (n : Nat) : Location :=
  ⟨here.line, here.column + n⟩

/-- The written form `line:column`. -/
def render (here : Location) : String :=
  s!"{here.line}:{here.column}"

@[simp] theorem advance_nil (here : Location) : here.advance [] = here := rfl

@[simp] theorem advance_cons (here : Location) (c : Char) (cs : List Char) :
    here.advance (c :: cs) = (here.next c).advance cs := rfl

theorem advance_append (here : Location) (cs ds : List Char) :
    here.advance (cs ++ ds) = (here.advance cs).advance ds := by
  simp [advance]

@[simp] theorem shift_zero (here : Location) : here.shift 0 = here := rfl

theorem shift_shift (here : Location) (m n : Nat) : (here.shift m).shift n = here.shift (m + n) := by
  simp [shift, Nat.add_assoc]

/-- On characters other than the line feed, advancing past them is shifting by their number. -/
theorem advance_eq_shift (here : Location) (cs : List Char) (h : '\n' ∉ cs) :
    here.advance cs = here.shift cs.length := by
  induction cs generalizing here with
  | nil => rfl
  | cons c cs ih =>
    simp only [List.mem_cons, not_or] at h
    rw [advance_cons, ih _ h.2, next, if_neg (Ne.symm h.1)]
    simp [shift, Nat.add_assoc, Nat.add_comm 1]

end Location

end Stencil
