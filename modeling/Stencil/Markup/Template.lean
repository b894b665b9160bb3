import Stencil.Bytes.Utf8
import Stencil.Markup.Builder

/-!
# Reading templates

A template is read from bytes in pieces: what a piece completes is scanned and built into the tree
before the next piece is looked at.
-/

namespace Stencil.Markup

/-- A template: a forest of nodes. -/
structure Template where
  children : List Node
  deriving Repr, Inhabited

namespace Template

/-- A scanner and the builder that takes its events. -/
structure Reader where
  scanner : Scanner
  builder : Builder

namespace Reader

/-- Takes a text. A fault that the builder finds comes before one that the scanner finds after the
event. -/
def take (r : Reader) (text : List Char) : Except Failure Reader := do
  let (events, result) := r.scanner.feed text
  let builder ← r.builder.takeAll events
  match result with
  | .error e => .error (.markup e)
  | .ok scanner => .ok ⟨scanner, builder⟩

/-- Takes the end of the text. -/
def finish (r : Reader) : Except Failure Template :=
  match r.scanner.finish with
  | .error e => .error (.markup e)
  | .ok events => do
    let builder ← r.builder.takeAll events
    .ok ⟨builder.tree⟩

end Reader

/-- Reads a template from pieces of bytes. -/
def ofPieces (pieces : List (List UInt8)) : Except Failure Template := do
  let (texts, outcome) := Bytes.texts pieces
  let reader ← texts.foldlM Reader.take ⟨.start, .start⟩
  match outcome with
  | .error e => .error (.encoding e)
  | .ok () => reader.finish

/-- Reads a template from bytes, `size` of them at a time. -/
def parse (size : Nat) (bytes : List UInt8) : Except Failure Template :=
  ofPieces (Bytes.pieces size bytes)

/-- The number of elements in a template. -/
def elementCount (template : Template) : Nat :=
  Markup.elementCount template.children

end Template

end Stencil.Markup
