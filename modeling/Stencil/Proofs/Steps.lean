import Stencil.Proofs.Compilation

/-!
# The steps of the walk

A script says what the walk does as a tree of blocks. Taken one after the other, the beginnings and
ends of blocks and the statements between them are the steps of the walk, each an operation on the
session that the steps before it have left. So one can say what holds at the moment when a command
is written.

## Main definitions

* `Step`: one operation of the walk
* `Step.Along`: something holds of each step in the session in which it is taken
* `Compiler.steps`: the steps of the walk over a template
* `Compiler.Writes`: the walk writes a command in a session

## Main results

* `Script.along_steps`: what holds along a script, from what holds of its parts
* `Compiler.run_steps`: the steps lead to the session in which the walk ends
* `Compiler.exists_writes`: each command is written by a step, after the commands before it
-/

namespace Stencil

/-! ### What a session never loses -/

/-- The session `t` comes after `s`: names of the document stay declared, and what was reported
stays reported. -/
structure Session.Precedes (s t : Session) : Prop where
  setup : t.setup = s.setup
  globals : ∀ key, s.globals.contains key = true → t.globals.contains key = true
  reports : s.reports <:+ t.reports

theorem Entries.contains_insert {α : Type} (entries : Entries α) (name key : String) (value : α) :
    (entries.insert name value).contains key = (decide (key = name) || entries.contains key) := by
  rw [contains, find?_insert]
  split
  · simp_all
  · simp_all [contains]

namespace Session

variable {s t u : Session}

theorem globals_declareGlobal (name : String) (here : Location) (s : Session) :
    (s.declareGlobal name here).globals = s.globals.insert (Text.lower name) here := by
  rw [declareGlobal]
  split <;> rfl

namespace Precedes

theorem refl (s : Session) : s.Precedes s :=
  ⟨rfl, fun _ h => h, List.suffix_rfl⟩

theorem trans (h : s.Precedes t) (h' : t.Precedes u) : s.Precedes u :=
  ⟨h'.setup.trans h.setup, fun key hkey => h'.globals key (h.globals key hkey),
    h.reports.trans h'.reports⟩

theorem mem_reports (h : s.Precedes t) {diagnostic : Diagnostic}
    (hmem : diagnostic ∈ s.reports) : diagnostic ∈ t.reports :=
  h.reports.subset hmem

theorem report (severity : Severity) (here : Location) (finding : Finding) (s : Session) :
    s.Precedes (s.report severity here finding) :=
  ⟨rfl, fun _ h => h, List.suffix_cons _ _⟩

theorem write (command : Command) (s : Session) : s.Precedes (s.write command) :=
  ⟨rfl, fun _ h => h, List.suffix_rfl⟩

theorem foldl {α : Type} {f : Session → α → Session}
    (hf : ∀ (s : Session) (a : α), s.Precedes (f s a)) (items : List α) (s : Session) :
    s.Precedes (items.foldl f s) := by
  induction items generalizing s with
  | nil => exact .refl s
  | cons a rest ih => exact (hf s a).trans (ih _)

theorem checkNames (root : Term) (here : Location) (s : Session) :
    s.Precedes (s.checkNames root here) := by
  rw [Session.checkNames]
  split
  · exact foldl (fun s name => report .warning here (.unresolved name) s) _ s
  · exact .refl s

theorem declare (name : String) (kind : DeclarationKind) (here : Location) (s : Session) :
    s.Precedes (s.declare name kind here) := by
  rw [Session.declare]
  split
  · exact ⟨rfl, fun _ h => h, List.suffix_cons _ _⟩
  · exact ⟨rfl, fun _ h => h, List.suffix_rfl⟩

theorem declareGlobal (name : String) (here : Location) (s : Session) :
    s.Precedes (s.declareGlobal name here) := by
  have hglobals (key : String) (h : s.globals.contains key = true) :
      (s.globals.insert (Text.lower name) here).contains key = true := by
    rw [Entries.contains_insert, h, Bool.or_true]
  rw [Session.declareGlobal]
  split
  · exact ⟨rfl, hglobals, List.suffix_cons _ _⟩
  · exact ⟨rfl, hglobals, List.suffix_rfl⟩

end Precedes

end Session

theorem Statement.precedes_run (x : Statement) (s : Session) : s.Precedes (x.run s) := by
  cases x with
  | generate => exact ⟨rfl, fun _ h => h, List.suffix_rfl⟩
  | report severity here finding => exact .report severity here finding s
  | check root here =>
    have hcheck := Session.Precedes.checkNames root here s
    exact ⟨hcheck.setup, hcheck.globals, hcheck.reports⟩
  | checkContext e here =>
    rw [run]
    split
    · exact .report _ _ _ s
    · exact .refl s
  | declareGlobal name here => exact .declareGlobal name here s
  | bindGlobal name value here => exact (Session.Precedes.write _ s).trans (.declareGlobal _ _ _)
  | outText text => exact .write _ s
  | outVariable name => exact .write _ s
  | callProcedure template arguments => exact .write _ s

theorem Header.precedes_enter (header : Header) (s : Session) : s.Precedes (header.enter s) := by
  cases header with
  | binding kind name value here => exact (Session.Precedes.write _ s).trans (.declare _ _ _ _)
  | conditional name expected => exact .write _ s
  | loop list item index here =>
    exact ((Session.Precedes.write _ s).trans (.declare _ _ _ _)).trans (.declare _ _ _ _)
  | procedure name parameters here =>
    have hparameters :=
      Session.Precedes.foldl (fun s name => .declare name .parameter here s) parameters s
    exact ⟨hparameters.setup, hparameters.globals, hparameters.reports⟩
  | rawText => exact ⟨rfl, fun _ h => h, List.suffix_rfl⟩

theorem Header.precedes_exit (header : Header) (outer inner : Session) :
    inner.Precedes (header.exit outer inner) :=
  ⟨rfl, fun _ h => h, List.suffix_rfl⟩

theorem Script.precedes_play (k : Script) (s : Session) : s.Precedes (k.play s) := by
  induction k generalizing s with
  | done => exact .refl s
  | statement x next ih => exact (x.precedes_run s).trans (ih _)
  | block header body next hbody ih =>
    exact (((header.precedes_enter s).trans (hbody _)).trans (header.precedes_exit s _)).trans
      (ih _)

/-! ### Steps -/

/-- One operation of the walk on its session. -/
inductive Step where
  | statement (x : Statement)
  | enter (header : Header)
  | leave (header : Header)

namespace Step

/-- What a step does. -/
def run : Step → Emit Unit
  | .statement x => modify x.run
  | .enter header => modify header.enter
  | .leave header => header.leave

/-- The commands that a step writes. -/
def commands : Step → List Command
  | .statement x => x.commands
  | .enter header => header.start?.toList
  | .leave header => header.close?.toList

/-- Steps one after the other. -/
def runAll : List Step → Emit Unit
  | [] => pure ()
  | step :: rest => do
    step.run
    runAll rest

/-- `P` holds of each step in the session in which it is taken, and no step fails. -/
def Along (P : Session → Step → Prop) : List Step → Session → Prop
  | [], _ => True
  | step :: rest, s => P s step ∧ ∃ t, step.run.run s = .ok () t ∧ Along P rest t

variable {P : Session → Step → Prop} {s t : Session} {step : Step} {first rest : List Step}

theorem runAll_cons (h : step.run.run s = .ok () t) :
    (runAll (step :: rest)).run s = (runAll rest).run t := by
  rw [runAll, EStateM.run_bind, h]

theorem runAll_append (h : (runAll first).run s = .ok () t) :
    (runAll (first ++ rest)).run s = (runAll rest).run t := by
  induction first generalizing s with
  | nil =>
    obtain ⟨-, rfl⟩ := EStateM.Result.ok.inj h
    rfl
  | cons step first ih =>
    cases hstep : step.run.run s with
    | ok _ u =>
      rw [runAll_cons hstep] at h
      rw [List.cons_append, runAll_cons hstep]
      exact ih h
    | error failure u =>
      rw [runAll, EStateM.run_bind, hstep] at h
      cases h

theorem Along.append (h : Along P first s) (hrun : (runAll first).run s = .ok () t)
    (hrest : Along P rest t) : Along P (first ++ rest) s := by
  induction first generalizing s with
  | nil =>
    obtain ⟨-, rfl⟩ := EStateM.Result.ok.inj hrun
    exact hrest
  | cons step first ih =>
    obtain ⟨hP, u, hstep, hfirst⟩ := h
    rw [runAll_cons hstep] at hrun
    exact ⟨hP, u, hstep, ih hfirst hrun⟩

/-- Some of the steps lead to a session in which the others are taken. -/
theorem Along.exists_of_append (h : Along P (first ++ rest) s) :
    ∃ t, Along P first s ∧ (runAll first).run s = .ok () t ∧ Along P rest t := by
  induction first generalizing s with
  | nil => exact ⟨s, trivial, rfl, h⟩
  | cons step first ih =>
    obtain ⟨hP, u, hstep, hfirst⟩ := h
    obtain ⟨t, halong, hrun, hrest⟩ := ih hfirst
    exact ⟨t, ⟨hP, u, hstep, halong⟩, (runAll_cons hstep).trans hrun, hrest⟩

/-- A step writes its commands and loses nothing that a session never loses. -/
def Framed (s : Session) (step : Step) : Prop :=
  ∃ t, step.run.run s = .ok () t ∧ t.stream = step.commands.foldl Stream.write s.stream ∧
    s.Precedes t

/-- Steps write their commands and lose nothing that a session never loses. -/
theorem Along.frame (h : Along Framed first s) (hrun : (runAll first).run s = .ok () t) :
    t.stream = (first.flatMap commands).foldl Stream.write s.stream ∧ s.Precedes t := by
  induction first generalizing s with
  | nil =>
    obtain ⟨-, rfl⟩ := EStateM.Result.ok.inj hrun
    exact ⟨rfl, .refl s⟩
  | cons step first ih =>
    obtain ⟨⟨u, hstep, hstream, hprecedes⟩, u', hstep', hfirst⟩ := h
    obtain ⟨-, rfl⟩ := EStateM.Result.ok.inj (hstep.symm.trans hstep')
    rw [runAll_cons hstep] at hrun
    obtain ⟨hstreams, hafter⟩ := ih hfirst hrun
    refine ⟨?_, hprecedes.trans hafter⟩
    rw [hstreams, hstream, List.flatMap_cons, List.foldl_append]

end Step

/-! ### The steps of a script -/

namespace Script

/-- The steps of a script. -/
def steps : Script → List Step
  | .done => []
  | .statement first next => .statement first :: next.steps
  | .block header body next => .enter header :: (body.steps ++ .leave header :: next.steps)

variable {s : Session}

theorem run_leave_play (header : Header) (body : Script) (hproper : s.scope.Proper) :
    (Step.leave header).run.run (body.play (header.enter s)) =
      .ok () (header.exit s (body.play (header.enter s))) :=
  header.run_leave hproper (body.level_play _)

/-- Taken one after the other, the steps of a script do what the script does. -/
theorem runAll_steps (k : Script) (hproper : s.scope.Proper) :
    (Step.runAll k.steps).run s = .ok () (k.play s) := by
  induction k generalizing s with
  | done => rfl
  | statement x next ih =>
    have hafter : (x.run s).scope.Proper := (x.level_run s).scope ▸ hproper
    exact ih hafter
  | block header body next hbody ih =>
    have hinside := hbody (header.proper_enter hproper)
    have hleave := run_leave_play header body hproper
    refine (Step.runAll_cons rfl).trans ((Step.runAll_append hinside).trans ?_)
    rw [Step.runAll_cons hleave]
    -- Behind the block the scope is the one before it.
    exact ih hproper

theorem commands_eq_flatMap_steps (k : Script) : k.commands = k.steps.flatMap Step.commands := by
  induction k with
  | done => rfl
  | statement x next ih =>
    rw [commands, steps, List.flatMap_cons, ih]
    rfl
  | block header body next hbody ih =>
    simp only [commands, steps, List.flatMap_cons, List.flatMap_append, hbody, ih,
      List.append_assoc]
    rfl

variable {P : Session → Step → Prop}

theorem along_statement {x : Statement} {next : Script} (hx : P s (.statement x))
    (hnext : Step.Along P next.steps (x.run s)) : Step.Along P (statement x next).steps s :=
  ⟨hx, _, rfl, hnext⟩

/-- Along a block: at its beginning, inside it, at its end, and behind it. -/
theorem along_block {header : Header} {body next : Script} (hproper : s.scope.Proper)
    (henter : P s (.enter header)) (hbody : Step.Along P body.steps (header.enter s))
    (hleave : P (body.play (header.enter s)) (.leave header))
    (hnext : Step.Along P next.steps (header.exit s (body.play (header.enter s)))) :
    Step.Along P (block header body next).steps s := by
  have hinside := body.runAll_steps (header.proper_enter hproper)
  have hend := run_leave_play header body hproper
  exact ⟨henter, _, rfl, hbody.append hinside ⟨hleave, _, hend, hnext⟩⟩

/-- What holds of statements and of beginnings of blocks in all sessions, and of ends where a
session stands inside the block, holds along every script. -/
theorem along_steps (hstatement : ∀ s x, P s (.statement x))
    (henter : ∀ s header, P s (.enter header))
    (hleave : ∀ outer inner header, outer.scope.Proper → (header.enter outer).Level inner →
      P inner (.leave header))
    (k : Script) (hproper : s.scope.Proper) : Step.Along P k.steps s := by
  induction k generalizing s with
  | done => trivial
  | statement x next ih =>
    exact along_statement (hstatement s x) (ih ((x.level_run s).scope ▸ hproper))
  | block header body next hbody ih =>
    exact along_block hproper (henter s header) (hbody (header.proper_enter hproper))
      (hleave s _ header hproper (body.level_play _)) (ih hproper)

theorem framed_steps (k : Script) (hproper : s.scope.Proper) :
    Step.Along Step.Framed k.steps s := by
  refine along_steps (fun s x => ⟨_, rfl, x.stream_run s, x.precedes_run s⟩)
    (fun s header => ⟨_, rfl, header.stream_enter s, header.precedes_enter s⟩)
    (fun outer inner header houter hlevel => ?_) k hproper
  exact ⟨_, header.run_leave houter hlevel, rfl, header.precedes_exit outer inner⟩

end Script

/-! ### Commands and the steps that write them -/

namespace Stream

open Command

variable {stream : Stream} {command written : Command} {before after : List Command}

/-- What a stream is after one more command: nothing is new, or a text, or the command itself. -/
theorem latestFirst_write (stream : Stream) (written : Command) :
    (stream.write written).latestFirst = stream.latestFirst ∨
      ∃ latest rest, (stream.write written).latestFirst = latest :: rest ∧
        rest <:+ stream.latestFirst ∧
        (latest.isText = true ∨ latest = written ∧ rest = stream.latestFirst) := by
  cases written with
  | outText text =>
    rw [write]
    split
    · exact .inl rfl
    · right
      simp only
      unfold writeText
      split
      · next earlier rest hlatest => exact ⟨_, rest, rfl, hlatest ▸ List.suffix_cons _ _, .inl rfl⟩
      · exact ⟨_, _, rfl, List.suffix_rfl, .inl rfl⟩
  | _ => exact .inr ⟨_, _, rfl, List.suffix_rfl, .inr ⟨rfl, rfl⟩⟩

/-- A command other than a text in a stream after one more command: it stood there before, or it is
the new one. -/
theorem of_commands_write (htext : command.isText = false)
    (h : (stream.write written).commands = before ++ command :: after) :
    (∃ rest, stream.commands = before ++ command :: rest) ∨
      command = written ∧ stream.commands = before := by
  -- The stream is kept latest first, so the commands before this one stand behind it.
  have hlatest : (stream.write written).latestFirst =
      after.reverse ++ command :: before.reverse := by
    rw [← List.reverse_reverse (write _ _).latestFirst]
    exact (congrArg List.reverse h).trans (by simp)
  have hfound {rest : List Command}
      (hrest : rest ++ command :: before.reverse <:+ stream.latestFirst) :
      ∃ rest, stream.commands = before ++ command :: rest := by
    obtain ⟨later, hlater⟩ := hrest
    exact ⟨rest.reverse ++ later.reverse, by simp [commands, ← hlater]⟩
  rcases latestFirst_write stream written with hsame | ⟨latest, rest, hwrite, hsuffix, hnew⟩
  · have hstream : after.reverse ++ command :: before.reverse = stream.latestFirst :=
      hlatest.symm.trans hsame
    exact .inl (hfound ⟨[], hstream⟩)
  · rw [hwrite] at hlatest
    cases hafter : after.reverse with
    | nil =>
      -- The command is the latest, and only texts are merged with what is written.
      rw [hafter, List.nil_append] at hlatest
      obtain ⟨rfl, rfl⟩ := List.cons.inj hlatest
      rcases hnew with hlast | ⟨rfl, hbefore⟩
      · cases htext.symm.trans hlast
      · exact .inr ⟨rfl, by rw [commands, ← hbefore, List.reverse_reverse]⟩
    | cons last others =>
      rw [hafter, List.cons_append] at hlatest
      exact .inl (hfound ((List.cons.inj hlatest).2 ▸ hsuffix))

/-- A command other than a text in a stream was written after the commands before it. -/
theorem exists_of_commands_ofCommands (htext : command.isText = false) {all : List Command}
    (h : (ofCommands all).commands = before ++ command :: after) :
    ∃ first last, all = first ++ command :: last ∧ (ofCommands first).commands = before := by
  induction all using List.reverseRecOn generalizing after with
  | nil => simp [ofCommands] at h
  | append_singleton all written ih =>
    rw [ofCommands, List.foldl_append] at h
    rcases of_commands_write htext h with ⟨rest, hrest⟩ | ⟨rfl, hbefore⟩
    · obtain ⟨first, last, rfl, hfirst⟩ := ih hrest
      exact ⟨first, last ++ [written], by simp, hfirst⟩
    · exact ⟨all, [], rfl, hbefore⟩

end Stream

theorem Step.length_commands_le (step : Step) : step.commands.length ≤ 1 := by
  cases step with
  | statement x => cases x <;> simp [commands, Statement.commands]
  | enter header => cases header <;> simp [commands, Header.start?]
  | leave header => cases header <;> simp [commands, Header.close?]

theorem Step.commands_eq_of_mem {step : Step} {command : Command} (h : command ∈ step.commands) :
    step.commands = [command] := by
  have hlength := step.length_commands_le
  match hcommands : step.commands with
  | [] => simp [hcommands] at h
  | [written] =>
    rw [hcommands, List.mem_singleton] at h
    rw [h]
  | _ :: _ :: rest => simp [hcommands] at hlength

/-- Each of the commands of steps is that of one step, after the commands of the steps before. -/
theorem Step.exists_of_flatMap_commands {steps : List Step} {command : Command}
    {before after : List Command}
    (h : steps.flatMap Step.commands = before ++ command :: after) :
    ∃ first step last, steps = first ++ step :: last ∧ first.flatMap Step.commands = before ∧
      step.commands = [command] := by
  induction steps generalizing before with
  | nil => simp at h
  | cons step rest ih =>
    rw [List.flatMap_cons] at h
    cases hcommands : step.commands with
    | nil =>
      rw [hcommands] at h
      obtain ⟨first, found, last, rfl, hfirst, hfound⟩ := ih h
      exact ⟨step :: first, found, last, rfl, by rw [List.flatMap_cons, hcommands, hfirst]; rfl,
        hfound⟩
    | cons written others =>
      -- A step writes at most one command, so what follows is that of later steps.
      have hone : step.commands = [written] :=
        commands_eq_of_mem (hcommands ▸ List.mem_cons_self)
      obtain rfl : others = [] := (List.cons.inj (hcommands.symm.trans hone)).2
      rw [hcommands] at h
      cases before with
      | nil =>
        obtain ⟨rfl, -⟩ := List.cons.inj h
        exact ⟨[], step, rest, rfl, rfl, hcommands⟩
      | cons earlier before =>
        obtain ⟨rfl, hrest⟩ := List.cons.inj h
        obtain ⟨first, found, last, rfl, hfirst, hfound⟩ := ih hrest
        exact ⟨step :: first, found, last, rfl, by rw [List.flatMap_cons, hcommands, hfirst]; rfl,
          hfound⟩

/-! ### The steps of the walk -/

namespace Compiler

open Markup

variable {compiler : Compiler}

/-- The steps of the walk over a template. -/
def steps (compiler : Compiler) (template : Template) : List Step :=
  (compiler.script template).steps

/-- The walk over a template writes a command in the session `s`. -/
def Writes (compiler : Compiler) (template : Template) (s : Session) (command : Command) : Prop :=
  ∃ first step last, compiler.steps template = first ++ step :: last ∧
    (Step.runAll first).run (Session.start compiler.setup) = .ok () s ∧ step.commands = [command]

/-- The session in which the step after `n` others is taken, and the step. -/
def stepAt? (compiler : Compiler) (template : Template) (n : Nat) : Option (Session × Step) :=
  match (Step.runAll ((compiler.steps template).take n)).run (Session.start compiler.setup) with
  | .ok _ s => (compiler.steps template)[n]?.map (s, ·)
  | .error _ _ => none

theorem writes_of_stepAt? {template : Template} {n : Nat} {s : Session} {step : Step}
    {command : Command} (h : compiler.stepAt? template n = some (s, step))
    (hcommand : command ∈ step.commands) : compiler.Writes template s command := by
  unfold stepAt? at h
  split at h
  · next t hrun =>
    obtain ⟨found, hfound, hpair⟩ := Option.map_eq_some_iff.1 h
    obtain ⟨rfl, rfl⟩ := Prod.mk.inj hpair
    obtain ⟨hlt, rfl⟩ := List.getElem?_eq_some_iff.1 hfound
    refine ⟨_, _, (compiler.steps template).drop (n + 1), ?_, hrun,
      Step.commands_eq_of_mem hcommand⟩
    rw [← List.drop_eq_getElem_cons hlt, List.take_append_drop]
  · cases h

/-- The steps of the walk lead to the session in which the walk ends. -/
theorem run_steps (hdirectives : compiler.directives.Unmarked) (template : Template) :
    ∃ session, compiler.walk template = .ok session ∧
      (Step.runAll (compiler.steps template)).run (Session.start compiler.setup) =
        .ok () session :=
  ⟨_, walk_eq hdirectives template, Script.runAll_steps _ Scope.proper_empty⟩

theorem framed_walk (compiler : Compiler) (template : Template) :
    Step.Along Step.Framed (compiler.steps template) (Session.start compiler.setup) :=
  Script.framed_steps _ Scope.proper_empty

/-- Each command but a text is written by a step, in a session that holds the commands before it. -/
theorem exists_writes (compiler : Compiler) (template : Template) {command : Command}
    {before after : List Command} (htext : command.isText = false)
    (h : ((compiler.script template).play (Session.start compiler.setup)).commands =
      before ++ command :: after) :
    ∃ s, compiler.Writes template s command ∧ s.commands = before := by
  rw [commands_play_start, Script.commands_eq_flatMap_steps] at h
  -- Back to what was written before texts were merged, and from there to the step that wrote it.
  obtain ⟨written, last, hwritten, hbefore⟩ := Stream.exists_of_commands_ofCommands htext h
  obtain ⟨first, step, rest, hsteps, rfl, hcommand⟩ := Step.exists_of_flatMap_commands hwritten
  have hframed := compiler.framed_walk template
  have hsplit : compiler.steps template = first ++ step :: rest := hsteps
  rw [hsplit] at hframed
  obtain ⟨s, hfirst, hrun, -⟩ := hframed.exists_of_append
  refine ⟨s, ⟨first, step, rest, hsplit, hrun, hcommand⟩, ?_⟩
  rw [Session.commands, (hfirst.frame hrun).1]
  exact hbefore

namespace Writes

variable {template : Template} {s : Session} {command : Command}

/-- What holds along the steps holds of the step that writes a command. -/
theorem exists_of_along (h : compiler.Writes template s command) {P : Session → Step → Prop}
    (halong : Step.Along P (compiler.steps template) (Session.start compiler.setup)) :
    ∃ step, step.commands = [command] ∧ P s step := by
  obtain ⟨first, step, last, hsteps, hrun, hcommands⟩ := h
  rw [hsteps] at halong
  obtain ⟨t, -, hrun', hP, -⟩ := halong.exists_of_append
  obtain ⟨-, rfl⟩ := EStateM.Result.ok.inj (hrun.symm.trans hrun')
  exact ⟨step, hcommands, hP⟩

theorem precedes (h : compiler.Writes template s command) :
    s.Precedes ((compiler.script template).play (Session.start compiler.setup)) := by
  obtain ⟨first, step, last, hsteps, hrun, -⟩ := h
  have hframed := compiler.framed_walk template
  have hwhole : (Step.runAll (compiler.steps template)).run (Session.start compiler.setup) = _ :=
    Script.runAll_steps _ Scope.proper_empty
  rw [hsteps] at hframed hwhole
  obtain ⟨t, -, hrun', hrest⟩ := hframed.exists_of_append
  obtain ⟨-, rfl⟩ := EStateM.Result.ok.inj (hrun.symm.trans hrun')
  rw [Step.runAll_append hrun] at hwhole
  exact (hrest.frame hwhole).2

/-- What the walk writes, texts apart, stands in the commands in which it ends. -/
theorem mem_commands (h : compiler.Writes template s command) (htext : command.isText = false) :
    command ∈ ((compiler.script template).play (Session.start compiler.setup)).commands := by
  obtain ⟨first, step, last, hsteps, -, hcommand⟩ := h
  have hwritten : command ∈ Command.withoutTexts (compiler.script template).commands := by
    refine List.mem_filter.2 ⟨?_, by rw [htext]; rfl⟩
    rw [Script.commands_eq_flatMap_steps]
    have hstep : step ∈ compiler.steps template := by
      rw [hsteps]
      exact List.mem_append_right _ List.mem_cons_self
    exact List.mem_flatMap.2 ⟨step, hstep, hcommand ▸ List.mem_singleton.2 rfl⟩
  rw [← Stream.withoutTexts_ofCommands, ← commands_play_start] at hwritten
  exact (List.mem_filter.1 hwritten).1

end Writes

end Compiler

end Stencil
