import Stencil.Proofs.Shown

/-!
# Operations on a session

A session is worked on by operations in any order. The only rule is that an end comes while the
innermost open block is of its kind. Then no operation fails, and the scope always holds what the
commands declare whose blocks are open: a block is closed by undoing as many declarations as its
start has made, and these are the latest ones.

## Main definitions

* `Operation`: the operations on a session
* `Operation.Disciplined`: each end comes while the innermost open block is of its kind
* `Stream.openCommands`: the commands whose blocks are open, outermost first
* `Session.InStep`: what the scope has to do with these commands

## Main results

* `Session.InStep.exists_run`: what one operation keeps
* `Operation.inStep_of_disciplined`: what holds after each operation of a sequence
-/

namespace Stencil

/-- An operation on a session. -/
inductive Operation where
  /-- Takes a new name. -/
  | generate
  | report (severity : Severity) (here : Location) (finding : Finding)
  | transform (e : Expression) (placement? : Option Placement) (here : Location)
  /-- Transforms an expression in the content of an element. -/
  | transformText (e : Expression) (here : Location)
  | enterRawText
  | leaveRawText
  | outText (text : String)
  | outVariable (name : String)
  | callProcedure (template arguments : String)
  | declareGlobal (name : String) (here : Location)
  | bindGlobal (name : String) (value : Term) (here : Location)
  | bind (name : String) (value : Term) (here : Location)
  | bindTemporary (value : Term) (here : Location)
  | unbind
  | startConditional (name : String) (expected : Bool)
  | endConditional
  | startLoop (list item index : String) (here : Location)
  | endLoop
  | startProcedure (name : String) (parameters : List String) (here : Location)
  | endProcedure

namespace Operation

/-- What an operation does. The names and expressions that some of them give are left out. -/
def run : Operation → Emit Unit
  | .generate => modify fun s => s.generate.2
  | .report severity here finding => modify (Session.report severity here finding)
  | .transform e placement? here => modify fun s => (s.transform e placement? here).2
  | .transformText e here => modify fun s => (s.transformText e here).2
  | .enterRawText => modify Session.enterRawText
  | .leaveRawText => modify Session.leaveRawText
  | .outText text => modify (Session.outText text)
  | .outVariable name => modify (Session.outVariable name)
  | .callProcedure template arguments => modify (Session.callProcedure template arguments)
  | .declareGlobal name here => modify (Session.declareGlobal name here)
  | .bindGlobal name value here => modify (Session.bindGlobal name value here)
  | .bind name value here => modify (Session.bind name value here)
  | .bindTemporary value here => modify fun s => (s.bindTemporary value here).2
  | .unbind => Session.unbind
  | .startConditional name expected => modify (Session.startConditional name expected)
  | .endConditional => modify Session.endConditional
  | .startLoop list item index here => modify (Session.startLoop list item index here)
  | .endLoop => Session.endLoop
  | .startProcedure name parameters here => modify (Session.startProcedure name parameters here)
  | .endProcedure => Session.endProcedure

/-- Operations one after the other. -/
def runAll (operations : List Operation) : Emit Unit :=
  forM operations run

/-- The block that an operation begins. -/
def opens? : Operation → Option Block
  | .bind .. => some .binding
  | .bindTemporary .. => some .binding
  | .startConditional .. => some .conditional
  | .startLoop .. => some .loop
  | .startProcedure .. => some .procedure
  | _ => none

/-- The block that an operation ends. -/
def closes? : Operation → Option Block
  | .unbind => some .binding
  | .endConditional => some .conditional
  | .endLoop => some .loop
  | .endProcedure => some .procedure
  | _ => none

/-- The open blocks, innermost first, after one more operation. -/
def blocksInside (operation : Operation) (opened : List Block) : List Block :=
  match operation.opens?, operation.closes? with
  | some block, _ => block :: opened
  | none, some _ => opened.tail
  | none, none => opened

/-- Whether an operation ends something. -/
def isEnd : Operation → Bool
  | .leaveRawText | .unbind | .endConditional | .endLoop | .endProcedure => true
  | _ => false

/-- What an operation states in a session. -/
def statements (s : Session) : Operation → List Statement
  | .generate | .bindTemporary .. => [.generate]
  | .report severity here finding => [.report severity here finding]
  | .transform e placement? here =>
    [.check (s.setup.filters.apply (Session.withContext placement? e)).root here]
  | .transformText e here =>
    [.checkContext e here,
      .check (s.setup.filters.apply (Session.withContext (some .text) e)).root here]
  | .outText text => [.outText text]
  | .outVariable name => [.outVariable name]
  | .callProcedure template arguments => [.callProcedure template arguments]
  | .declareGlobal name here => [.declareGlobal name here]
  | .bindGlobal name value here => [.bindGlobal name value here]
  | _ => []

/-- The block that an operation begins in a session, after what it states. -/
def header? (s : Session) : Operation → Option Header
  | .enterRawText => some .rawText
  | .bind name value here => some (.binding .bound name value here)
  | .bindTemporary value here => some (.binding .temporary (Session.symbol s.symbols) value here)
  | .startConditional name expected => some (.conditional name expected)
  | .startLoop list item index here => some (.loop list item index here)
  | .startProcedure name parameters here => some (.procedure name parameters here)
  | _ => none

/-- Each end comes while the innermost open block is of its kind; before the first operation
`opened` are open. -/
def Disciplined (opened : List Block) : List Operation → Prop
  | [] => True
  | operation :: rest =>
    (∀ block, operation.closes? = some block → opened.head? = some block) ∧
      Disciplined (operation.blocksInside opened) rest

end Operation

/-- The number of parameters of the procedure that a command begins. -/
def Command.parameterCount? : Command → Option Nat
  | .procedureStart _ parameters _ => some parameters.length
  | _ => none

/-- The names that a command declares, in lower case. -/
def Command.declaredKeys (command : Command) : List String :=
  command.declared.map fun (name, _) => Text.lower name

/-! ### The open blocks of a stream -/

namespace Stream

open Command

/-- The commands whose blocks are open, outermost first. -/
def openCommands (stream : Stream) : List Command :=
  (opened stream.commands).reverse

theorem foldl_track_withoutTexts (stack : List Command) (commands : List Command) :
    (withoutTexts commands).foldl track stack = commands.foldl track stack := by
  induction commands generalizing stack with
  | nil => rfl
  | cons command rest ih =>
    by_cases htext : command.isText
    · have htrack : track stack command = stack := by cases command <;> first | rfl | cases htext
      rw [withoutTexts, List.filter_cons_of_neg (by simp [htext]), List.foldl_cons, htrack]
      exact ih stack
    · rw [withoutTexts, List.filter_cons_of_pos (by simp [htext])]
      exact ih (track stack command)

variable (stream : Stream) {command start : Command} {outer : List Command} {block : Block}

/-- What is written is tracked as it is, though texts may be joined. -/
theorem openCommands_foldl_write (written : List Command) :
    (written.foldl write stream).openCommands =
      (written.foldl track (opened stream.commands)).reverse := by
  rw [openCommands, opened, ← foldl_track_withoutTexts, withoutTexts_foldl_write, List.foldl_append,
    foldl_track_withoutTexts, foldl_track_withoutTexts, opened]

theorem blocksAfter_foldl_write (written : List Command) :
    blocksAfter [] (written.foldl write stream).commands =
      (blocksAfter [] stream.commands).bind (blocksAfter · written) := by
  rw [← blocksAfter_withoutTexts, withoutTexts_foldl_write, blocksAfter_append,
    blocksAfter_withoutTexts]
  simp only [blocksAfter_withoutTexts]

theorem openCommands_write_start (h : command.opens? = some block) :
    (stream.write command).openCommands = stream.openCommands ++ [command] := by
  refine (stream.openCommands_foldl_write [command]).trans ?_
  rw [List.foldl_cons, track, h]
  exact List.reverse_cons

theorem openCommands_write_close (h : command.closes? = some block)
    (hopen : stream.openCommands = outer ++ [start]) :
    (stream.write command).openCommands = outer := by
  have hstack : opened stream.commands = start :: outer.reverse := by
    rw [← List.reverse_reverse (opened stream.commands)]
    exact (congrArg List.reverse hopen).trans (by simp)
  refine (stream.openCommands_foldl_write [command]).trans ?_
  rw [List.foldl_cons, track, opens?_eq_none_of_closes? h, h, hstack]
  exact List.reverse_reverse outer

theorem blocksAfter_write {opened : List Block}
    (h : blocksAfter [] stream.commands = some opened) :
    blocksAfter [] (stream.write command).commands = blockStep opened command := by
  refine (stream.blocksAfter_foldl_write [command]).trans ?_
  rw [h, Option.bind_some, blocksAfter_cons]
  exact Option.bind_fun_some _

end Stream

namespace Session

/-- The scope and the procedures are those of the commands whose blocks are open, and these are of
the kinds `opened`, innermost first. -/
structure InStep (opened : List Block) (s : Session) : Prop where
  /-- No command ends a block of another kind. -/
  nested : Command.blocksAfter [] s.commands = some opened
  blocks : s.stream.openCommands.map Command.opens? = opened.reverse.map some
  order : s.scope.order.reverse = s.stream.openCommands.flatMap Command.declaredKeys
  procedures : s.procedures.reverse = s.stream.openCommands.filterMap Command.parameterCount?

theorem inStep_start (setup : Setup) : InStep [] (start setup) := ⟨rfl, rfl, rfl, rfl⟩

variable {opened : List Block} {s t : Session}

/-! ### What one operation keeps -/

/-- A statement stays inside the open blocks. -/
theorem InStep.statement (h : InStep opened s) (x : Statement) : InStep opened (x.run s) := by
  have hlevel := x.level_run s
  have hstream := x.stream_run s
  have hopen : (x.run s).stream.openCommands = s.stream.openCommands := by
    rw [hstream, Stream.openCommands_foldl_write, x.foldl_track_commands]
    rfl
  constructor
  · rw [commands, hstream, Stream.blocksAfter_foldl_write]
    exact (congrArg (Option.bind · _) h.nested).trans (x.blocksAfter_commands opened)
  · rw [hopen, h.blocks]
  · rw [hlevel.scope, hopen, h.order]
  · rw [hlevel.procedures, hopen, h.procedures]

theorem order_declareParameters (parameters : List String) (here : Location)
    (scope : Scope Declaration) :
    (declareParameters parameters here scope).order =
      (parameters.map Text.lower).reverse ++ scope.order := by
  induction parameters generalizing scope with
  | nil => rfl
  | cons name rest ih =>
    rw [List.map_cons, List.reverse_cons, List.append_assoc]
    exact ih _

/-- The beginning of a block declares the names of its command, after those declared before. -/
theorem order_scopeInside {header : Header} {start : Command} (hstart : header.start? = some start)
    (scope : Scope Declaration) :
    (header.scopeInside scope).order.reverse = scope.order.reverse ++ start.declaredKeys := by
  cases header with
  | procedure name parameters here =>
    obtain rfl := Option.some.inj hstart
    rw [Header.scopeInside, order_declareParameters, List.reverse_append, List.reverse_reverse]
    simp [Command.declaredKeys, Command.declared]
  | rawText => cases hstart
  | _ =>
    obtain rfl := Option.some.inj hstart
    simp [Header.scopeInside, Scope.push, Command.declaredKeys, Command.declared]

theorem proceduresInside_eq {header : Header} {start : Command}
    (hstart : header.start? = some start) (procedures : List Nat) :
    (header.proceduresInside procedures).reverse =
      procedures.reverse ++ start.parameterCount?.toList := by
  cases header with
  | procedure name parameters here =>
    obtain rfl := Option.some.inj hstart
    exact List.reverse_cons
  | rawText => cases hstart
  | _ =>
    obtain rfl := Option.some.inj hstart
    exact (List.append_nil _).symm

/-- The beginning of a block puts its command behind those whose blocks are open. -/
theorem InStep.enter (h : InStep opened s) {header : Header} {start : Command} {block : Block}
    (hstart : header.start? = some start) (hopens : start.opens? = some block) :
    InStep (block :: opened) (header.enter s) := by
  obtain ⟨reports, henter⟩ := header.exists_enter s
  have hopen := s.stream.openCommands_write_start hopens
  rw [henter, hstart]
  constructor
  · exact (s.stream.blocksAfter_write h.nested).trans (Command.blockStep_of_opens hopens)
  · refine (congrArg (List.map _) hopen).trans ?_
    rw [List.map_append, h.blocks, List.reverse_cons, List.map_append, List.map_singleton, hopens]
    rfl
  · refine (order_scopeInside hstart s.scope).trans ?_
    rw [h.order]
    refine Eq.trans ?_ (congrArg (List.flatMap Command.declaredKeys) hopen).symm
    rw [List.flatMap_append, List.flatMap_singleton]
  · refine (proceduresInside_eq hstart s.procedures).trans ?_
    rw [h.procedures]
    refine Eq.trans ?_ (congrArg (List.filterMap Command.parameterCount?) hopen).symm
    rw [List.filterMap_append]
    cases hcount : start.parameterCount? <;> simp [hcount]

/-- The innermost open block is the one of the last command whose block is open. -/
theorem InStep.exists_start {block : Block} (h : InStep (block :: opened) s) :
    ∃ outer start, s.stream.openCommands = outer ++ [start] ∧ start.opens? = some block := by
  have hblocks := h.blocks
  rw [List.reverse_cons, List.map_append, List.map_eq_append_iff] at hblocks
  obtain ⟨outer, last, hopen, -, hlast⟩ := hblocks
  obtain ⟨start, rfl, hstart⟩ := List.map_eq_singleton_iff.1 hlast
  exact ⟨outer, start, hopen, hstart⟩

/-- The end of a block undoes the declarations of the block's command, which are the latest. -/
theorem InStep.leave {block : Block} (h : InStep (block :: opened) s) (close : Command)
    {outer : List Command} {start : Command} (hopen : s.stream.openCommands = outer ++ [start])
    (hcloses : close.closes? = some block) (hstream : t.stream = s.stream.write close)
    (horder : s.scope.order = start.declaredKeys.reverse ++ t.scope.order)
    (hprocedures : s.procedures = start.parameterCount?.toList ++ t.procedures) :
    InStep opened t := by
  have hafter := s.stream.openCommands_write_close hcloses hopen
  have hblocks := h.blocks
  have hkeys := h.order
  have hcounts := h.procedures
  -- Each of the three lists ends in what belongs to the block's command; this is cut off.
  rw [hopen, List.map_append, List.reverse_cons, List.map_append] at hblocks
  rw [hopen, horder, List.reverse_append, List.reverse_reverse, List.flatMap_append,
    List.flatMap_singleton] at hkeys
  rw [hopen, hprocedures, List.reverse_append, List.filterMap_append] at hcounts
  constructor
  · rw [commands, hstream, s.stream.blocksAfter_write h.nested]
    exact Command.blockStep_of_closes hcloses
  · rw [hstream, hafter]
    exact (List.append_inj' hblocks rfl).1
  · rw [hstream, hafter]
    exact List.append_cancel_right hkeys
  · rw [hstream, hafter]
    cases hcount : start.parameterCount? <;> simpa [hcount] using hcounts

theorem exists_run_popVariable {key : String} {rest : List String}
    (h : s.scope.order = key :: rest) :
    ∃ scope : Scope Declaration, scope.order = rest ∧
      popVariable.run s = .ok () { s with scope } := by
  refine ⟨⟨Scope.dropInnermost s.scope.byName key, rest⟩, rfl, ?_⟩
  simp only [popVariable, EStateM.run_bind, EStateM.run_get, Scope.pop?, h]
  rfl

theorem exists_run_popVariables {keys rest : List String} (h : s.scope.order = keys ++ rest) :
    ∃ scope : Scope Declaration, scope.order = rest ∧
      (popVariables keys.length).run s = .ok () { s with scope } := by
  induction keys generalizing s with
  | nil => exact ⟨s.scope, h, rfl⟩
  | cons key keys ih =>
    obtain ⟨scope, hscope, hpop⟩ := exists_run_popVariable h
    have hrest : { s with scope }.scope.order = keys ++ rest := hscope
    obtain ⟨last, hlast, hpops⟩ := ih hrest
    refine ⟨last, hlast, ?_⟩
    rw [List.length_cons, popVariables, EStateM.run_bind, hpop]
    exact hpops

/-- The latest declarations are those of the last command whose block is open. -/
theorem InStep.exists_order (h : InStep opened s) {outer : List Command} {start : Command}
    (hopen : s.stream.openCommands = outer ++ [start]) :
    ∃ rest, s.scope.order = start.declaredKeys.reverse ++ rest := by
  refine ⟨(outer.flatMap Command.declaredKeys).reverse, ?_⟩
  rw [← List.reverse_append, ← List.reverse_reverse s.scope.order, h.order, hopen,
    List.flatMap_append, List.flatMap_singleton]

/-- The end of a binding, where the innermost open block is one. -/
theorem InStep.unbind (h : InStep (.binding :: opened) s) :
    ∃ t, Session.unbind.run s = .ok () t ∧ InStep opened t := by
  obtain ⟨outer, start, hopen, hstart⟩ := h.exists_start
  obtain ⟨rest, horder⟩ := h.exists_order hopen
  cases start with
  | bindingStart name value here =>
    obtain ⟨scope, rfl, hpop⟩ := exists_run_popVariable horder
    refine ⟨{ s with scope, stream := s.stream.write .bindingEnd }, ?_, ?_⟩
    · rw [Session.unbind, EStateM.run_bind, hpop]
      rfl
    · exact h.leave .bindingEnd hopen rfl rfl horder rfl
  | _ => cases hstart

theorem InStep.endConditional (h : InStep (.conditional :: opened) s) :
    InStep opened s.endConditional := by
  obtain ⟨outer, start, hopen, hstart⟩ := h.exists_start
  cases start with
  | conditionalStart name expected => exact h.leave .conditionalEnd hopen rfl rfl rfl rfl
  | _ => cases hstart

theorem InStep.endLoop (h : InStep (.loop :: opened) s) :
    ∃ t, Session.endLoop.run s = .ok () t ∧ InStep opened t := by
  obtain ⟨outer, start, hopen, hstart⟩ := h.exists_start
  obtain ⟨rest, horder⟩ := h.exists_order hopen
  cases start with
  | loopStart list item index here =>
    -- The index was declared last, so it is undone first.
    obtain ⟨middle, hmiddle, hindex⟩ := exists_run_popVariable horder
    have hrest : { s with scope := middle }.scope.order = Text.lower item :: rest := hmiddle
    obtain ⟨scope, rfl, hitem⟩ := exists_run_popVariable hrest
    refine ⟨{ s with scope, stream := s.stream.write .loopEnd }, ?_, ?_⟩
    · rw [Session.endLoop, EStateM.run_bind, hindex]
      simp only [EStateM.run_bind, hitem]
      rfl
    · exact h.leave .loopEnd hopen rfl rfl horder rfl
  | _ => cases hstart

theorem InStep.endProcedure (h : InStep (.procedure :: opened) s) :
    ∃ t, Session.endProcedure.run s = .ok () t ∧ InStep opened t := by
  obtain ⟨outer, start, hopen, hstart⟩ := h.exists_start
  obtain ⟨rest, horder⟩ := h.exists_order hopen
  cases start with
  | procedureStart name parameters here =>
    -- The count kept for the innermost procedure is the number of its names, which are the latest.
    have hcounts : s.procedures =
        parameters.length :: (outer.filterMap Command.parameterCount?).reverse := by
      rw [← List.reverse_reverse s.procedures, h.procedures, hopen, List.filterMap_append]
      simp [Command.parameterCount?]
    have hlength : (Command.procedureStart name parameters here).declaredKeys.reverse.length =
        parameters.length := by
      simp [Command.declaredKeys, Command.declared]
    generalize (outer.filterMap Command.parameterCount?).reverse = procedures at hcounts
    have hinside : { s with procedures }.scope.order = _ := horder
    obtain ⟨scope, rfl, hpops⟩ := exists_run_popVariables hinside
    rw [hlength] at hpops
    refine ⟨{ s with scope, procedures, stream := s.stream.write .procedureEnd }, ?_, ?_⟩
    · simp only [Session.endProcedure, EStateM.run_bind, EStateM.run_get, hcounts,
        EStateM.run_modify, hpops]
      rfl
    · exact h.leave .procedureEnd hopen rfl rfl horder hcounts
  | _ => cases hstart

/-- Statements one after the other, and then the beginning of a block. -/
def begun (statements : List Statement) (s : Session) : Option Header → Session
  | none => statements.foldl (fun s x => x.run s) s
  | some header => header.enter (statements.foldl (fun s x => x.run s) s)

/-- An operation that ends nothing does what it states, and then begins its block. -/
theorem run_eq_begun {operation : Operation} (h : operation.isEnd = false) (s : Session) :
    operation.run.run s = .ok () (begun (operation.statements s) s (operation.header? s)) := by
  cases operation with
  | leaveRawText | unbind | endConditional | endLoop | endProcedure => cases h
  | transformText e here =>
    -- The filters are those of the setup, which a report leaves as it is.
    have hsetup := ((Statement.checkContext e here).level_run s).setup
    rw [Operation.statements, ← hsetup]
    rfl
  | _ => rfl

theorem InStep.begun (h : InStep opened s) (statements : List Statement)
    (header? : Option Header) :
    InStep (((header?.bind Header.start?).bind Command.opens?).toList ++ opened)
      (Session.begun statements s header?) := by
  have hstated : InStep opened (statements.foldl (fun s x => x.run s) s) :=
    List.foldlRecOn statements _ h fun _ ht x _ => ht.statement x
  cases header? with
  | none => exact hstated
  | some header =>
    have hopens : ∀ start, header.start? = some start → ∃ block, start.opens? = some block := by
      cases header <;> rintro _ ⟨⟩ <;> exact ⟨_, rfl⟩
    rw [Option.bind_some]
    cases hstart : header.start? with
    | none =>
      cases header with
      | rawText => exact ⟨hstated.nested, hstated.blocks, hstated.order, hstated.procedures⟩
      | _ => cases hstart
    | some start =>
      obtain ⟨block, hblock⟩ := hopens start hstart
      rw [Option.bind_some, hblock]
      exact hstated.enter hstart hblock

/-- Where the innermost open block is of the kind that an operation ends, the operation succeeds and
the scope stays in step. -/
theorem InStep.exists_run (h : InStep opened s) {operation : Operation}
    (hclose : ∀ block, operation.closes? = some block → opened.head? = some block) :
    ∃ t, operation.run.run s = .ok () t ∧ InStep (operation.blocksInside opened) t := by
  cases hend : operation.isEnd with
  | false =>
    refine ⟨_, run_eq_begun hend s, ?_⟩
    have hbegun := h.begun (operation.statements s) (operation.header? s)
    cases operation with
    | leaveRawText | unbind | endConditional | endLoop | endProcedure => cases hend
    | _ => exact hbegun
  | true =>
    -- An end finds its own block innermost.
    cases operation with
    | leaveRawText => exact ⟨_, rfl, h.nested, h.blocks, h.order, h.procedures⟩
    | unbind =>
      obtain ⟨outer, rfl⟩ := List.head?_eq_some_iff.1 (hclose .binding rfl)
      exact h.unbind
    | endConditional =>
      obtain ⟨outer, rfl⟩ := List.head?_eq_some_iff.1 (hclose .conditional rfl)
      exact ⟨_, rfl, h.endConditional⟩
    | endLoop =>
      obtain ⟨outer, rfl⟩ := List.head?_eq_some_iff.1 (hclose .loop rfl)
      exact h.endLoop
    | endProcedure =>
      obtain ⟨outer, rfl⟩ := List.head?_eq_some_iff.1 (hclose .procedure rfl)
      exact h.endProcedure
    | _ => cases hend

end Session

namespace Operation

/-- The open blocks, innermost first, after operations. -/
def blocksAfter (opened : List Block) (operations : List Operation) : List Block :=
  operations.foldl (fun opened operation => operation.blocksInside opened) opened

variable {opened : List Block} {operations first : List Operation}

theorem Disciplined.of_isPrefix (h : Disciplined opened operations)
    (hfirst : first <+: operations) : Disciplined opened first := by
  induction first generalizing opened operations with
  | nil => trivial
  | cons operation first ih =>
    obtain ⟨rest, rfl⟩ := hfirst
    exact ⟨h.1, ih h.2 (List.prefix_append first rest)⟩

/-- Operations that keep the rule all succeed, and leave the scope in step. -/
theorem exists_runAll {s : Session} (hs : s.InStep opened) (h : Disciplined opened operations) :
    ∃ t, (runAll operations).run s = .ok () t ∧ t.InStep (blocksAfter opened operations) := by
  induction operations generalizing opened s with
  | nil => exact ⟨s, rfl, hs⟩
  | cons operation rest ih =>
    obtain ⟨middle, hrun, hmiddle⟩ := hs.exists_run h.1
    obtain ⟨t, hrest, ht⟩ := ih hmiddle h.2
    refine ⟨t, ?_, ht⟩
    rw [runAll, List.forM_cons, EStateM.run_bind, hrun]
    exact hrest

/-- In a sequence of operations whose ends come while the innermost open block is of their kind, no
operation fails. After each of them the order of declarations is that of the commands whose blocks
are open, outermost first, and the procedures are those of these commands. -/
theorem inStep_of_disciplined (setup : Setup) (h : Disciplined [] operations) :
    ∀ first, first <+: operations → ∃ s, (runAll first).run (Session.start setup) = .ok () s ∧
      Command.blocksAfter [] s.commands = some (blocksAfter [] first) ∧
      s.scope.order.reverse = s.stream.openCommands.flatMap Command.declaredKeys ∧
      s.procedures.reverse = s.stream.openCommands.filterMap Command.parameterCount? := by
  intro first hfirst
  obtain ⟨s, hrun, hs⟩ := exists_runAll (Session.inStep_start setup) (h.of_isPrefix hfirst)
  exact ⟨s, hrun, hs.nested, hs.order, hs.procedures⟩

/-- A loop and a procedure inside a binding. -/
def nestedOperations : List Operation :=
  [.bindTemporary (.identifier "items") ⟨1, 1⟩,
    .startLoop "var_0" "Item" "var_1" ⟨1, 1⟩, .outVariable "Item", .endLoop,
    .startProcedure "card" ["Title", "text"] ⟨2, 1⟩, .outText "x", .endProcedure, .unbind]

theorem inStep_of_disciplined_nested :
    Disciplined [] nestedOperations ∧
      (∀ first, first <+: nestedOperations →
        ∃ s, (runAll first).run (Session.start ⟨[], [], false⟩) = .ok () s ∧
          Command.blocksAfter [] s.commands = some (blocksAfter [] first) ∧
          s.scope.order.reverse = s.stream.openCommands.flatMap Command.declaredKeys ∧
          s.procedures.reverse = s.stream.openCommands.filterMap Command.parameterCount?) ∧
      ∃ s, (runAll (nestedOperations.take 5)).run (Session.start ⟨[], [], false⟩) = .ok () s ∧
        s.scope.order.reverse = ["var_0", "title", "text"] ∧ s.procedures = [2] := by
  have hrule : Disciplined [] nestedOperations := by
    simp [Disciplined, nestedOperations, closes?, blocksInside, opens?]
  refine ⟨hrule, inStep_of_disciplined ⟨[], [], false⟩ hrule, ?_⟩
  exact ⟨_, rfl, by decide +kernel, rfl⟩

end Operation

end Stencil
