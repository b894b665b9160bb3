import Mathlib.Data.List.Induction
import Stencil.Proofs.Nesting
import Stencil.Proofs.ScopeStack
import Stencil.Session

/-!
# Scripts

A script is a sequence of operations on a session in which blocks are closed by construction: it
consists of statements, which leave the blocks as they are, and of blocks with a header and a script
inside. Playing a script never fails, puts back all that its blocks changed, and writes well nested
commands.

## Main definitions

* `Statement`, `Header`, `Script`: the operations
* `Script.play`: what a script does to a session
* `Script.commands`: the commands that a script writes
* `Session.Level`: two sessions with the same blocks open

## Main results

* `Header.run_leave`: the operation that ends a block succeeds after whatever happened inside
* `Script.level_play`, `Script.stream_play`: what a script changes and what it does not
* `Script.blocksAfter_commands`: the commands of a script leave no block open
-/

namespace Stencil

variable {scope : Scope Declaration}

/-- An operation on a session that begins and ends no block. -/
inductive Statement where
  /-- Takes a new name. -/
  | generate
  | report (severity : Severity) (here : Location) (finding : Finding)
  /-- Checks the names of a term and counts it. -/
  | check (root : Term) (here : Location)
  /-- Asks for the context of an expression in raw text. -/
  | checkContext (e : Expression) (here : Location)
  | declareGlobal (name : String) (here : Location)
  | bindGlobal (name : String) (value : Term) (here : Location)
  | outText (text : String)
  | outVariable (name : String)
  | callProcedure (template arguments : String)

/-- The beginning of a block. -/
inductive Header where
  | binding (kind : DeclarationKind) (name : String) (value : Term) (here : Location)
  | conditional (name : String) (expected : Bool)
  | loop (list item index : String) (here : Location)
  | procedure (name : String) (parameters : List String) (here : Location)
  /-- The content of an element that holds raw text; no command shows it. -/
  | rawText

/-- Statements and blocks one after the other. -/
inductive Script where
  | done
  | statement (first : Statement) (next : Script)
  | block (header : Header) (body next : Script)

namespace Statement

/-- What a statement does. -/
def run : Statement → Session → Session
  | .generate, s => s.generate.2
  | .report severity here finding, s => s.report severity here finding
  | .check root here, s =>
    let s := s.checkNames root here
    { s with expressions := s.expressions + 1 }
  | .checkContext e here, s =>
    if 0 < s.rawDepth ∧ !e.hasOption Filter.contextOption then s.report .warning here .noContext
    else s
  | .declareGlobal name here, s => s.declareGlobal name here
  | .bindGlobal name value here, s => s.bindGlobal name value here
  | .outText text, s => s.outText text
  | .outVariable name, s => s.outVariable name
  | .callProcedure template arguments, s => s.callProcedure template arguments

/-- The commands that a statement writes. -/
def commands : Statement → List Command
  | .bindGlobal name value here => [.globalBinding name value here]
  | .outText text => [.outText text]
  | .outVariable name => [.outVariable name]
  | .callProcedure template arguments => [.procedureCall template arguments]
  | _ => []

/-- The number of names made after a statement. -/
def symbolsAfter : Statement → Nat → Nat
  | .generate, n => n + 1
  | _, n => n

end Statement

namespace Header

/-- What the beginning of a block does. -/
def enter : Header → Session → Session
  | .binding kind name value here, s =>
    (s.write (.bindingStart name value here)).declare name kind here
  | .conditional name expected, s => s.startConditional name expected
  | .loop list item index here, s => s.startLoop list item index here
  | .procedure name parameters here, s => s.startProcedure name parameters here
  | .rawText, s => s.enterRawText

/-- The operation that ends a block. -/
def leave : Header → Emit Unit
  | .binding .. => Session.unbind
  | .conditional .. => modify Session.endConditional
  | .loop .. => Session.endLoop
  | .procedure .. => Session.endProcedure
  | .rawText => modify Session.leaveRawText

/-- The command that begins the block, if there is one. -/
def start? : Header → Option Command
  | .binding _ name value here => some (.bindingStart name value here)
  | .conditional name expected => some (.conditionalStart name expected)
  | .loop list item index here => some (.loopStart list item index here)
  | .procedure name parameters here => some (.procedureStart name parameters here)
  | .rawText => none

/-- The command that ends the block, if there is one. -/
def close? : Header → Option Command
  | .binding .. => some .bindingEnd
  | .conditional .. => some .conditionalEnd
  | .loop .. => some .loopEnd
  | .procedure .. => some .procedureEnd
  | .rawText => none

/-- The session `inner`, at the end of the block, after the block; `outer` is the session before
it. -/
def exit (header : Header) (outer inner : Session) : Session where
  setup := inner.setup
  stream := header.close?.toList.foldl Stream.write inner.stream
  scope := outer.scope
  globals := inner.globals
  procedures := outer.procedures
  symbols := inner.symbols
  reports := inner.reports
  expressions := inner.expressions
  rawDepth := outer.rawDepth

end Header

namespace Script

/-- What a script does. -/
def play : Script → Session → Session
  | .done, s => s
  | .statement first next, s => next.play (first.run s)
  | .block header body next, s => next.play (header.exit s (body.play (header.enter s)))

/-- One script after the other. -/
def append : Script → Script → Script
  | .done, last => last
  | .statement first next, last => .statement first (next.append last)
  | .block header body next, last => .block header body (next.append last)

instance : Append Script := ⟨append⟩

/-- The commands that a script writes. -/
def commands : Script → List Command
  | .done => []
  | .statement first next => first.commands ++ next.commands
  | .block header body next =>
    header.start?.toList ++ body.commands ++ header.close?.toList ++ next.commands

/-- The number of names made after a script. -/
def symbolsAfter : Script → Nat → Nat
  | .done, n => n
  | .statement first next, n => next.symbolsAfter (first.symbolsAfter n)
  | .block _ body next, n => next.symbolsAfter (body.symbolsAfter n)

end Script

/-! ### Sessions at the same level -/

/-- Two sessions of one compilation in which the same blocks are open. -/
structure Session.Level (s t : Session) : Prop where
  setup : t.setup = s.setup
  scope : t.scope = s.scope
  procedures : t.procedures = s.procedures
  rawDepth : t.rawDepth = s.rawDepth

namespace Session

variable {s t u : Session}

theorem Level.refl (s : Session) : s.Level s := ⟨rfl, rfl, rfl, rfl⟩

theorem Level.trans (h : s.Level t) (h' : t.Level u) : s.Level u :=
  ⟨h'.setup.trans h.setup, h'.scope.trans h.scope, h'.procedures.trans h.procedures,
    h'.rawDepth.trans h.rawDepth⟩

/-- The check of names does nothing but report. -/
theorem exists_checkNames (root : Term) (here : Location) (s : Session) :
    ∃ reports, s.checkNames root here = { s with reports } := by
  have hfold (names : List String) (s : Session) :
      ∃ reports, names.foldl (fun s name => s.report .warning here (.unresolved name)) s =
        { s with reports } := by
    induction names generalizing s with
    | nil => exact ⟨s.reports, rfl⟩
    | cons name rest ih => exact ih _
  rw [checkNames]
  split
  · exact hfold _ s
  · exact ⟨s.reports, rfl⟩

/-- A declaration changes the scope, and may be reported. -/
theorem exists_declare (name : String) (kind : DeclarationKind) (here : Location) (s : Session) :
    ∃ reports, s.declare name kind here =
      { s with scope := s.scope.push name ⟨kind, here⟩, reports } := by
  rw [declare]
  split
  · exact ⟨_, rfl⟩
  · exact ⟨s.reports, rfl⟩

/-- The declaration of a global changes the globals, and may be reported. -/
theorem exists_declareGlobal (name : String) (here : Location) (s : Session) :
    ∃ globals reports, s.declareGlobal name here = { s with globals, reports } := by
  rw [declareGlobal]
  split
  · exact ⟨_, _, rfl⟩
  · exact ⟨_, s.reports, rfl⟩

/-- The scope after the declaration of parameters. -/
def declareParameters (parameters : List String) (here : Location) (scope : Scope Declaration) :
    Scope Declaration :=
  parameters.foldl (fun scope name => scope.push name ⟨.parameter, here⟩) scope

theorem exists_foldl_declare (parameters : List String) (here : Location) (s : Session) :
    ∃ reports, parameters.foldl (fun s name => s.declare name .parameter here) s =
      { s with scope := declareParameters parameters here s.scope, reports } := by
  induction parameters generalizing s with
  | nil => exact ⟨s.reports, rfl⟩
  | cons name rest ih =>
    obtain ⟨reports, hdeclare⟩ := exists_declare name .parameter here s
    rw [List.foldl_cons, hdeclare]
    exact ih _

/-! ### Undoing declarations -/

theorem run_popVariable_push {name : String} {data : Declaration} (hproper : scope.Proper)
    (hscope : s.scope = scope.push name data) :
    popVariable.run s = .ok () { s with scope } := by
  simp only [popVariable, EStateM.run_bind, EStateM.run_get, hscope, Scope.pop?_push hproper]
  rfl

theorem proper_declareParameters (hproper : scope.Proper) (parameters : List String)
    (here : Location) :
    (declareParameters parameters here scope).Proper := by
  induction parameters generalizing scope with
  | nil => exact hproper
  | cons name rest ih => exact ih (hproper.push _ _)

theorem run_popVariables_declareParameters (hproper : scope.Proper) (parameters : List String)
    (here : Location) {s : Session} (hscope : s.scope = declareParameters parameters here scope) :
    (popVariables parameters.length).run s = .ok () { s with scope } := by
  -- Declarations are undone last to first, so the list is taken from its end.
  induction parameters using List.reverseRecOn generalizing s with
  | nil =>
    subst hscope
    rfl
  | append_singleton rest name ih =>
    have hpush : s.scope = (declareParameters rest here scope).push name ⟨.parameter, here⟩ := by
      rw [hscope, declareParameters, List.foldl_append]
      rfl
    have hpop := run_popVariable_push (proper_declareParameters hproper rest here) hpush
    rw [List.length_append, List.length_singleton, popVariables, EStateM.run_bind, hpop]
    exact ih rfl

end Session

/-! ### Statements -/

namespace Statement

variable (x : Statement) (s : Session)

/-- A statement writes its commands, may take a name, and may report, count and declare globals. -/
theorem exists_run :
    ∃ globals reports expressions, x.run s =
      { s with
        stream := x.commands.foldl Stream.write s.stream
        symbols := x.symbolsAfter s.symbols
        globals, reports, expressions } := by
  cases x with
  | check root here =>
    obtain ⟨reports, h⟩ := Session.exists_checkNames root here s
    exact ⟨s.globals, reports, s.expressions + 1, by rw [run, h]; rfl⟩
  | checkContext e here =>
    rw [run]
    split
    · exact ⟨_, _, _, rfl⟩
    · exact ⟨s.globals, s.reports, s.expressions, rfl⟩
  | declareGlobal name here =>
    obtain ⟨globals, reports, h⟩ := Session.exists_declareGlobal name here s
    exact ⟨globals, reports, s.expressions, h⟩
  | bindGlobal name value here =>
    obtain ⟨globals, reports, h⟩ :=
      Session.exists_declareGlobal name here (s.write (.globalBinding name value here))
    exact ⟨globals, reports, s.expressions, h⟩
  | _ => exact ⟨_, _, _, rfl⟩

theorem level_run : s.Level (x.run s) := by
  obtain ⟨globals, reports, expressions, h⟩ := exists_run x s
  rw [h]
  exact ⟨rfl, rfl, rfl, rfl⟩

theorem stream_run : (x.run s).stream = x.commands.foldl Stream.write s.stream := by
  obtain ⟨globals, reports, expressions, h⟩ := exists_run x s
  rw [h]

theorem symbols_run : (x.run s).symbols = x.symbolsAfter s.symbols := by
  obtain ⟨globals, reports, expressions, h⟩ := exists_run x s
  rw [h]

theorem blocksAfter_commands (opened : List Block) :
    Command.blocksAfter opened x.commands = some opened := by
  cases x <;> rfl

end Statement

/-! ### Blocks -/

namespace Header

variable (header : Header) {outer inner : Session}

/-- The scope inside a block. -/
def scopeInside : Header → Scope Declaration → Scope Declaration
  | .binding kind name _ here, scope => scope.push name ⟨kind, here⟩
  | .conditional .., scope => scope
  | .loop _ item index here, scope =>
    (scope.push item ⟨.loopItem, here⟩).push index ⟨.loopIndex, here⟩
  | .procedure _ parameters here, scope => Session.declareParameters parameters here scope
  | .rawText, scope => scope

/-- The parameter counts of the open procedures inside a block. -/
def proceduresInside : Header → List Nat → List Nat
  | .procedure _ parameters _, procedures => parameters.length :: procedures
  | _, procedures => procedures

/-- The number of open raw text elements inside a block. -/
def rawDepthInside : Header → Nat → Nat
  | .rawText, depth => depth + 1
  | _, depth => depth

/-- The beginning of a block writes its command, declares its variables, and may report. -/
theorem exists_enter (s : Session) :
    ∃ reports, header.enter s =
      { s with
        stream := header.start?.toList.foldl Stream.write s.stream
        scope := header.scopeInside s.scope
        procedures := header.proceduresInside s.procedures
        rawDepth := header.rawDepthInside s.rawDepth
        reports } := by
  cases header with
  | binding kind name value here =>
    exact Session.exists_declare name kind here (s.write (.bindingStart name value here))
  | conditional name expected => exact ⟨s.reports, rfl⟩
  | loop list item index here =>
    -- The item is declared before the index, and either may be reported.
    obtain ⟨first, hitem⟩ :=
      Session.exists_declare item .loopItem here (s.write (.loopStart list item index here))
    obtain ⟨second, hindex⟩ := Session.exists_declare index .loopIndex here
      { s.write (.loopStart list item index here) with
        scope := s.scope.push item ⟨.loopItem, here⟩, reports := first }
    refine ⟨second, ?_⟩
    rw [enter, Session.startLoop, hitem]
    exact hindex
  | procedure name parameters here =>
    obtain ⟨reports, h⟩ := Session.exists_foldl_declare parameters here s
    refine ⟨reports, ?_⟩
    rw [enter, Session.startProcedure, h]
    rfl
  | rawText => exact ⟨s.reports, rfl⟩

theorem proper_scopeInside (h : scope.Proper) :
    (header.scopeInside scope).Proper := by
  cases header with
  | binding kind name value here => exact h.push _ _
  | loop list item index here => exact (h.push _ _).push _ _
  | procedure name parameters here => exact Session.proper_declareParameters h parameters here
  | _ => exact h

/-- Where a session stands inside a block, the operation that ends the block succeeds and puts back
what the block changed. -/
theorem run_leave (hproper : outer.scope.Proper) (hlevel : (header.enter outer).Level inner) :
    header.leave.run inner = .ok () (header.exit outer inner) := by
  obtain ⟨reports, henter⟩ := exists_enter header outer
  rw [henter] at hlevel
  -- Three fields are known from the beginning of the block; the others are whatever they became.
  obtain ⟨setup, stream, scope, globals, procedures, symbols, found, expressions, rawDepth⟩ := inner
  obtain rfl : scope = header.scopeInside outer.scope := hlevel.scope
  obtain rfl : procedures = header.proceduresInside outer.procedures := hlevel.procedures
  obtain rfl : rawDepth = header.rawDepthInside outer.rawDepth := hlevel.rawDepth
  cases header with
  | binding kind name value here =>
    rw [leave, Session.unbind, EStateM.run_bind, Session.run_popVariable_push hproper rfl]
    rfl
  | conditional name expected => rfl
  | loop list item index here =>
    rw [leave, Session.endLoop, EStateM.run_bind,
      Session.run_popVariable_push (hproper.push item ⟨.loopItem, here⟩) rfl]
    simp only [EStateM.run_bind]
    rw [Session.run_popVariable_push hproper rfl]
    rfl
  | procedure name parameters here =>
    simp only [leave, Session.endProcedure, EStateM.run_bind, EStateM.run_get, EStateM.run_modify,
      proceduresInside]
    rw [Session.run_popVariables_declareParameters hproper parameters here rfl]
    rfl
  | rawText => rfl

theorem symbols_enter (s : Session) : (header.enter s).symbols = s.symbols := by
  obtain ⟨reports, h⟩ := exists_enter header s
  rw [h]

theorem setup_enter (s : Session) : (header.enter s).setup = s.setup := by
  obtain ⟨reports, h⟩ := exists_enter header s
  rw [h]

theorem stream_enter (s : Session) :
    (header.enter s).stream = header.start?.toList.foldl Stream.write s.stream := by
  obtain ⟨reports, h⟩ := exists_enter header s
  rw [h]

theorem proper_enter {s : Session} (hproper : s.scope.Proper) :
    (header.enter s).scope.Proper := by
  obtain ⟨reports, h⟩ := exists_enter header s
  rw [h]
  exact proper_scopeInside header hproper

/-- The commands of a block around well nested commands leave no block open. -/
theorem blocksAfter_around (opened : List Block) {body : List Command}
    (h : ∀ opened, Command.blocksAfter opened body = some opened) :
    Command.blocksAfter opened (header.start?.toList ++ body ++ header.close?.toList) =
      some opened := by
  cases header <;> simp [start?, close?, Command.blockStep, Command.opens?, Command.closes?, h]

end Header

/-! ### Scripts -/

namespace Script

@[simp] theorem done_append (k : Script) : done ++ k = k := rfl

@[simp] theorem statement_append (x : Statement) (next k : Script) :
    statement x next ++ k = statement x (next ++ k) := rfl

@[simp] theorem block_append (header : Header) (body next k : Script) :
    block header body next ++ k = block header body (next ++ k) := rfl

@[simp] theorem append_done (k : Script) : k ++ done = k := by
  induction k with
  | done => rfl
  | statement x next ih => rw [statement_append, ih]
  | block header body next _ ih => rw [block_append, ih]

theorem append_assoc (first second third : Script) :
    first ++ second ++ third = first ++ (second ++ third) := by
  induction first with
  | done => rfl
  | statement x next ih => simp only [statement_append, ih]
  | block header body next _ ih => simp only [block_append, ih]

theorem play_append (first second : Script) (s : Session) :
    (first ++ second).play s = second.play (first.play s) := by
  induction first generalizing s with
  | done => rfl
  | statement x next ih => exact ih _
  | block header body next _ ih => exact ih _

@[simp] theorem commands_append (first second : Script) :
    (first ++ second).commands = first.commands ++ second.commands := by
  induction first with
  | done => rfl
  | statement x next ih => simp [commands, ih]
  | block header body next _ ih => simp [commands, ih]

theorem symbolsAfter_append (first second : Script) (n : Nat) :
    (first ++ second).symbolsAfter n = second.symbolsAfter (first.symbolsAfter n) := by
  induction first generalizing n with
  | done => rfl
  | statement x next ih => exact ih _
  | block header body next _ ih => exact ih _

/-- After a script the same blocks are open as before. -/
theorem level_play (k : Script) (s : Session) : s.Level (k.play s) := by
  induction k generalizing s with
  | done => exact .refl s
  | statement x next ih => exact (x.level_run s).trans (ih _)
  | block header body next hbody ih =>
    -- The end of a block puts back all but the setup, which nothing changes.
    have hsetup : (header.exit s (body.play (header.enter s))).setup = s.setup :=
      (hbody _).setup.trans (header.setup_enter s)
    have hexit : s.Level (header.exit s (body.play (header.enter s))) := ⟨hsetup, rfl, rfl, rfl⟩
    exact hexit.trans (ih _)

/-- A script writes its commands. -/
theorem stream_play (k : Script) (s : Session) :
    (k.play s).stream = k.commands.foldl Stream.write s.stream := by
  induction k generalizing s with
  | done => rfl
  | statement x next ih =>
    rw [play, ih, x.stream_run, commands, List.foldl_append]
  | block header body next hbody ih =>
    rw [play, ih]
    simp only [Header.exit, hbody, header.stream_enter, commands, List.foldl_append]

/-- A script takes its names. -/
theorem symbols_play (k : Script) (s : Session) :
    (k.play s).symbols = k.symbolsAfter s.symbols := by
  induction k generalizing s with
  | done => rfl
  | statement x next ih => rw [play, ih, x.symbols_run, symbolsAfter]
  | block header body next hbody ih =>
    rw [play, ih]
    simp only [Header.exit, hbody, header.symbols_enter, symbolsAfter]

/-- The commands of a script leave no block open that they began, and end no other. -/
theorem blocksAfter_commands (k : Script) (opened : List Block) :
    Command.blocksAfter opened k.commands = some opened := by
  induction k generalizing opened with
  | done => rfl
  | statement x next ih =>
    rw [commands, Command.blocksAfter_append, x.blocksAfter_commands]
    exact ih opened
  | block header body next hbody ih =>
    rw [commands, Command.blocksAfter_append, header.blocksAfter_around opened hbody]
    exact ih opened

end Script

end Stencil
