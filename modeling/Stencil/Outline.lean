import Stencil.Decimal.Layout
import Stencil.Text.Basic

/-!
# Outlines of values

An outline shows a value on several lines, each part indented by four blanks under what holds it.
It is the form for reading a tree or a command list by eye.
-/

namespace Stencil

/-- A value to show: a word of its own, or labelled parts between an opening and a closing word. -/
inductive Outline where
  | word (text : String)
  | group (opening : String) (parts : List (String × Outline)) (closing : String)
  deriving Inhabited

namespace Outline

/-- A text between quotes. -/
def text (s : String) : Outline := .word (Text.quoted s)

/-- A natural number. -/
def nat (n : Nat) : Outline := .word (toString n)

/-- A truth value. -/
def bool (b : Bool) : Outline := .word (if b then "true" else "false")

/-- A number. -/
def number (value : Binary64) : Outline := .word (NumberLayout.outline.write value)

/-- Parts in brackets. -/
def list (items : List Outline) : Outline := .group "[" (items.map ("", ·)) "]"

/-- Parts under quoted names. -/
def map (entries : List (String × Outline)) : Outline :=
  .group "\x7b" (entries.map fun (name, value) => (Text.quoted name ++ ": ", value)) "\x7d"

/-- A named value with named parts. -/
def record (name : String) (fields : List (String × Outline)) : Outline :=
  .group (name ++ " \x7b") (fields.map fun (field, value) => (field ++ ": ", value)) "\x7d"

/-- A named value with one part. -/
def wrapped (name : String) (value : Outline) : Outline := .group (name ++ "(") [("", value)] ")"

/-- A value that may be missing. -/
def option : Option Outline → Outline
  | none => .word "None"
  | some value => wrapped "Some" value

/-- A line feed and `depth` steps of four blanks. -/
def newLine (depth : Nat) : String :=
  "\n" ++ "".pushn ' ' (4 * depth)

mutual

/-- The outline under `depth` other ones. -/
def renderAt (depth : Nat) : Outline → String
  | .word text => text
  | .group opening [] closing => opening ++ closing
  | .group opening parts closing =>
    opening ++ renderParts (depth + 1) parts ++ newLine depth ++ closing

/-- The parts, each on lines of its own. -/
def renderParts (depth : Nat) : List (String × Outline) → String
  | [] => ""
  | (label, value) :: rest =>
    newLine depth ++ label ++ renderAt depth value ++ "," ++ renderParts depth rest

end

/-- The lines of the outline. -/
def render (outline : Outline) : String :=
  renderAt 0 outline

end Outline

end Stencil
