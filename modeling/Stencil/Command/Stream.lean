import Stencil.Command.Basic

/-!
# Command streams

A stream takes commands one after the other. Empty text is left out, and text that follows text is
joined to it, so that a stream never holds two texts in a row.

## Main definitions

* `Stream`: the commands written so far
* `Stream.write`: one more command
* `Stream.commands`: the commands, first to last
-/

namespace Stencil

/-- The commands written so far, the last one first. -/
structure Stream where
  latestFirst : List Command
  deriving Repr, Inhabited

namespace Stream

/-- The stream before the first command. -/
def empty : Stream := ⟨[]⟩

/-- The commands, first to last. -/
def commands (stream : Stream) : List Command :=
  stream.latestFirst.reverse

/-- The number of commands. -/
def length (stream : Stream) : Nat :=
  stream.latestFirst.length

/-- Whether there is no command. -/
def isEmpty (stream : Stream) : Bool :=
  stream.latestFirst.isEmpty

/-- The commands, last to first, with a text after them. -/
def writeText (text : String) : List Command → List Command
  | .outText before :: rest => .outText (before ++ text) :: rest
  | written => .outText text :: written

/-- The stream with one more command. -/
def write (stream : Stream) : Command → Stream
  | .outText text =>
    if text.isEmpty then stream else ⟨writeText text stream.latestFirst⟩
  | command => ⟨command :: stream.latestFirst⟩

/-- The stream of commands written one after the other. -/
def ofCommands (commands : List Command) : Stream :=
  commands.foldl write empty

@[simp] theorem commands_empty : empty.commands = [] := rfl

@[simp] theorem length_commands (stream : Stream) : stream.commands.length = stream.length := by
  simp [commands, length]

end Stream

end Stencil
