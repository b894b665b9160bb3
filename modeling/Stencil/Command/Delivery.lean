import Stencil.Command.Stream
import Stencil.Diagnostic

/-!
# Delivery of commands

The commands of a stream go to an output one by one. Observers see each of them before the output
does, and the end; they may report, and may stop the delivery. Commands are kept as a whole or go to
a listing, which has one line for each, indented by two blanks for each block that is open there.

## Main definitions

* `Listing`: the lines of commands
* `Observer`: how values of a type react to commands
* `deliver`: commands through observers to an output
* `collect`, `list`: the two kinds of output
-/

namespace Stencil

/-! ### Listings -/

/-- A listing in the making: the number of open blocks and the lines, the last one first. -/
structure Listing where
  depth : Nat
  latestFirst : List String
  deriving Repr, Inhabited

namespace Listing

/-- The listing without lines. -/
def empty : Listing := ⟨0, []⟩

/-- The lines, first to last. -/
def lines (listing : Listing) : List String :=
  listing.latestFirst.reverse

/-- The listing with a line for one more command. A command that ends a block stands at the depth of
the one that begins it; where none is open it stands at the margin. -/
def add (listing : Listing) (command : Command) : Listing :=
  let depth := if command.closes?.isSome then listing.depth - 1 else listing.depth
  { depth := if command.opens?.isSome then depth + 1 else depth
    latestFirst := ("".pushn ' ' (2 * depth) ++ command.render) :: listing.latestFirst }

/-- The listing of commands. -/
def ofCommands (commands : List Command) : Listing :=
  commands.foldl add empty

/-- The text of a listing, each line ended by a line feed. -/
def text (listing : Listing) : String :=
  listing.lines.foldl (fun written line => written ++ line ++ "\n") ""

end Listing

/-! ### Observers -/

/-- What observers report: diagnostics and lines, each the latest first. -/
structure Report where
  diagnostics : List Diagnostic
  lines : List String
  deriving DecidableEq, Repr

namespace Report

/-- The report without entries. -/
def empty : Report := ⟨[], []⟩

/-- The report with more diagnostics. -/
def addAll (report : Report) (diagnostics : List Diagnostic) : Report :=
  { report with diagnostics := diagnostics.reverse ++ report.diagnostics }

/-- The report with one more line. -/
def addLine (report : Report) (line : String) : Report :=
  { report with lines := line :: report.lines }

end Report

/-- An observer after it has reacted, what it reported, and whether it stops the delivery. -/
structure Reaction (ω : Type) where
  observer : ω
  report : Report
  failure? : Option Failure

/-- How values of a type react to the commands of a stream and to its end. -/
class Observer (ω : Type) where
  onCommand : ω → Command → Report → Reaction ω
  onDone : ω → Report → Reaction ω

/-- What is left of a delivery, finished or stopped. -/
structure Delivery (ω β : Type) where
  observers : List ω
  report : Report
  output : β
  failure? : Option Failure

variable {ω β : Type}

/-- Lets observers react one after the other, up to the first that stops the delivery. -/
def notify (react : ω → Report → Reaction ω) : List ω → Report → Reaction (List ω)
  | [], report => ⟨[], report, none⟩
  | observer :: rest, report =>
    let first := react observer report
    match first.failure? with
    | some failure => ⟨first.observer :: rest, first.report, some failure⟩
    | none =>
      let others := notify react rest first.report
      ⟨first.observer :: others.observer, others.report, others.failure?⟩

/-- Takes commands through observers to an output. -/
def deliver [Observer ω] (put : β → Command → β) :
    List Command → List ω → Report → β → Delivery ω β
  | [], observers, report, output =>
    let reaction := notify Observer.onDone observers report
    ⟨reaction.observer, reaction.report, output, reaction.failure?⟩
  | command :: rest, observers, report, output =>
    let reaction := notify (fun observer => Observer.onCommand observer command) observers report
    match reaction.failure? with
    | some failure => ⟨reaction.observer, reaction.report, output, some failure⟩
    | none => deliver put rest reaction.observer reaction.report (put output command)

/-- Delivers commands to be kept as a whole: nothing is kept if the delivery is stopped. -/
def collect [Observer ω] (commands : List Command) (observers : List ω) (report : Report) :
    Delivery ω (List Command) :=
  let delivery := deliver (fun (_ : Unit) _ => ()) commands observers report ()
  { delivery with output := if delivery.failure?.isNone then commands else [] }

/-- Delivers commands to a listing, line by line. -/
def list [Observer ω] (commands : List Command) (observers : List ω) (report : Report) :
    Delivery ω Listing :=
  deliver Listing.add commands observers report .empty

end Stencil
