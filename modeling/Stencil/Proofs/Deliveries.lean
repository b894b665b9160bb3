import Stencil.Proofs.Listings

/-!
# Deliveries that are stopped

Observers can stop a delivery at a command or at the end. Whether commands are collected or listed,
the observers are told the same, so both deliveries end alike. What an observer is told shows in a
record that is kept beside it and that changes nothing of the delivery: the commands before the one
that the delivery stops at are heard by all observers, and this one by those up to the observer that
stops it. The commands before it are listed, and none is collected.

## Main definitions

* `Recorded`: an observer with a record of what it is told
* `Course`: how a delivery goes, by the records of its observers

## Main results

* `deliver_recorded`: records change nothing of a delivery
* `course_deliver`: the records and the output of a delivery
* `collect_list_agree`: collecting and listing agree, also if the delivery is stopped
-/

namespace Stencil

open List (replicate)

variable {ω β : Type}

/-! ### Records of observers -/

/-- What an observer has been told, and the failure by which it has stopped the delivery. -/
structure Record where
  heard : List Command
  ended : Bool
  raised? : Option Failure

namespace Record

/-- The record of one more command. -/
def hear (command : Command) (record : Record) : Record :=
  { record with heard := record.heard ++ [command] }

/-- The record of the end. -/
def finish (record : Record) : Record :=
  { record with ended := true }

end Record

/-- An observer with a record of what it is told. -/
structure Recorded (ω : Type) where
  observer : ω
  record : Record

namespace Recorded

/-- An observer that has not been told anything. -/
def ofObserver (observer : ω) : Recorded ω :=
  ⟨observer, [], false, none⟩

/-- The reaction of an observer, with what it is told and what it raises on record. -/
def react (tell : Record → Record) (reaction : ω → Report → Reaction ω) (recorded : Recorded ω)
    (report : Report) : Reaction (Recorded ω) :=
  let own := reaction recorded.observer report
  ⟨⟨own.observer, { tell recorded.record with raised? := own.failure? }⟩, own.report, own.failure?⟩

instance [Observer ω] : Observer (Recorded ω) where
  onCommand recorded command :=
    react (.hear command) (fun observer => Observer.onCommand observer command) recorded
  onDone := react .finish Observer.onDone

end Recorded

/-- What is left of a delivery, without the records. -/
def Delivery.forget (delivery : Delivery (Recorded ω) β) : Delivery ω β :=
  ⟨delivery.observers.map Recorded.observer, delivery.report, delivery.output, delivery.failure?⟩

/-- Records change nothing of a notification. -/
theorem notify_recorded {tell : Record → Record} {reaction : ω → Report → Reaction ω}
    {observers after : List (Recorded ω)} {report later : Report} {failure? : Option Failure}
    (h : notify (Recorded.react tell reaction) observers report = ⟨after, later, failure?⟩) :
    notify reaction (observers.map Recorded.observer) report =
      ⟨after.map Recorded.observer, later, failure?⟩ := by
  induction observers generalizing after report with
  | nil =>
    cases h
    rfl
  | cons observer rest ih =>
    rw [List.map_cons]
    cases hfailure : (reaction observer.observer report).failure? with
    | some failure =>
      simp only [notify, Recorded.react, hfailure] at h ⊢
      cases h
      rfl
    | none =>
      simp only [notify, Recorded.react, hfailure] at h ⊢
      cases h
      rw [ih rfl]
      rfl

section Deliver

variable [Observer ω] {put : β → Command → β} {command : Command} {rest : List Command}
  {observers after : List ω} {report later : Report} {output : β}

theorem deliver_nil {failure? : Option Failure}
    (h : notify Observer.onDone observers report = ⟨after, later, failure?⟩) :
    deliver put [] observers report output = ⟨after, later, output, failure?⟩ := by
  simp only [deliver, h]

theorem deliver_cons_of_some {failure : Failure}
    (h : notify (Observer.onCommand · command) observers report = ⟨after, later, some failure⟩) :
    deliver put (command :: rest) observers report output =
      ⟨after, later, output, some failure⟩ := by
  simp only [deliver, h]

theorem deliver_cons_of_none
    (h : notify (Observer.onCommand · command) observers report = ⟨after, later, none⟩) :
    deliver put (command :: rest) observers report output =
      deliver put rest after later (put output command) := by
  simp only [deliver, h]

/-- The output has no part in how a delivery ends. -/
theorem deliver_agree {γ : Type} (put : β → Command → β) (put' : γ → Command → γ)
    (commands : List Command) (observers : List ω) (report : Report) (output : β) (output' : γ) :
    (deliver put commands observers report output).report =
        (deliver put' commands observers report output').report ∧
      (deliver put commands observers report output).failure? =
        (deliver put' commands observers report output').failure? ∧
      (deliver put commands observers report output).observers =
        (deliver put' commands observers report output').observers := by
  induction commands generalizing observers report output output' with
  | nil => exact ⟨rfl, rfl, rfl⟩
  | cons command rest ih =>
    rcases hnotify : notify (Observer.onCommand · command) observers report with
      ⟨after, later, _ | failure⟩
    · rw [deliver_cons_of_none hnotify, deliver_cons_of_none hnotify]
      exact ih after later (put output command) (put' output' command)
    · rw [deliver_cons_of_some hnotify, deliver_cons_of_some hnotify]
      exact ⟨rfl, rfl, rfl⟩

/-- If nobody stops the delivery, all commands reach the output. -/
theorem output_deliver (put : β → Command → β) (commands : List Command) (observers : List ω)
    (report : Report) (output : β)
    (h : (deliver put commands observers report output).failure? = none) :
    (deliver put commands observers report output).output = commands.foldl put output := by
  induction commands generalizing observers report output with
  | nil => rfl
  | cons command rest ih =>
    rcases hnotify : notify (Observer.onCommand · command) observers report with
      ⟨after, later, _ | failure⟩
    · rw [deliver_cons_of_none hnotify] at h ⊢
      exact ih after later (put output command) h
    · rw [deliver_cons_of_some hnotify] at h
      cases h

end Deliver

/-- Records change nothing of a delivery. -/
theorem deliver_recorded [Observer ω] (put : β → Command → β) (commands : List Command)
    (observers : List (Recorded ω)) (report : Report) (output : β) :
    (deliver put commands observers report output).forget =
      deliver put commands (observers.map Recorded.observer) report output := by
  induction commands generalizing observers report output with
  | nil =>
    rcases hnotify : notify Observer.onDone observers report with ⟨after, later, failure?⟩
    rw [deliver_nil hnotify, deliver_nil (notify_recorded hnotify)]
    rfl
  | cons command rest ih =>
    rcases hnotify : notify (Observer.onCommand · command) observers report with
      ⟨after, later, _ | failure⟩
    · rw [deliver_cons_of_none hnotify, deliver_cons_of_none (notify_recorded hnotify)]
      exact ih after later (put output command)
    · rw [deliver_cons_of_some hnotify, deliver_cons_of_some (notify_recorded hnotify)]
      rfl

/-! ### The course of a delivery -/

/-- The records of `n` observers that are notified up to the first that stops the delivery: those
that are notified have the record `told`, with what they raise, and the others still the record
`before`. -/
inductive Notified (n : Nat) (before told : Record) : Option Failure → List Record → Prop where
  | all : Notified n before told none (replicate n told)
  | upTo (j k : Nat) (hn : n = j + 1 + k) (failure : Failure) :
    Notified n before told (some failure)
      (replicate j told ++ { told with raised? := some failure } :: replicate k before)

theorem notified_of_notify {tell : Record → Record} {reaction : ω → Report → Reaction ω} {n : Nat}
    {observers after : List (Recorded ω)} {report later : Report} {failure? : Option Failure}
    {before : Record} (hrecords : observers.map Recorded.record = replicate n before)
    (htell : (tell before).raised? = none)
    (h : notify (Recorded.react tell reaction) observers report = ⟨after, later, failure?⟩) :
    Notified n before (tell before) failure? (after.map Recorded.record) := by
  induction observers generalizing n after report with
  | nil =>
    obtain rfl : 0 = n := by simpa using congrArg List.length hrecords
    cases h
    exact .all
  | cons observer rest ih =>
    obtain ⟨m, rfl⟩ : ∃ m, n = m + 1 :=
      ⟨rest.length, by simpa using (congrArg List.length hrecords).symm⟩
    obtain ⟨hobserver, hrest⟩ := List.cons.inj hrecords
    rcases hreaction : reaction observer.observer report with ⟨own, next, _ | failure⟩
    · rcases hnotify : notify (Recorded.react tell reaction) rest next with ⟨others, last, raised?⟩
      simp only [notify, Recorded.react, hreaction, hnotify] at h
      cases h
      have hfirst : { tell observer.record with raised? := none } = tell before := by
        rw [hobserver, ← htell]
      have hothers := ih hrest hnotify
      rw [List.map_cons, hfirst]
      generalize others.map Recorded.record = records at hothers ⊢
      cases hothers with
      | all => exact .all
      | upTo j k hn failure => exact .upTo (j + 1) k (by omega) failure
    -- The first one fails, and the rest is not told.
    · simp only [notify, Recorded.react, hreaction] at h
      cases h
      rw [List.map_cons, hobserver, hrest]
      exact .upTo 0 m (by omega) failure

/-- How the delivery of commands to `n` observers goes: by what failure it is stopped, how many
commands reach the output, and what the observers have on record. -/
inductive Course (commands : List Command) (n : Nat) :
    Option Failure → Nat → List Record → Prop where
  /-- All observers are told all commands and the end. -/
  | finished : Course commands n none commands.length (replicate n ⟨commands, true, none⟩)
  /-- One observer stops the delivery at command `i`, which those behind it are not told. -/
  | stopped (i : Nat) (hi : i < commands.length) (j k : Nat) (hn : n = j + 1 + k)
      (failure : Failure) :
    Course commands n (some failure) i
      (replicate j ⟨commands.take (i + 1), false, none⟩ ++
        ⟨commands.take (i + 1), false, some failure⟩ ::
          replicate k ⟨commands.take i, false, none⟩)
  /-- One observer stops the delivery at the end, which those behind it are not told. -/
  | stoppedAtEnd (j k : Nat) (hn : n = j + 1 + k) (failure : Failure) :
    Course commands n (some failure) commands.length
      (replicate j ⟨commands, true, none⟩ ++
        ⟨commands, true, some failure⟩ :: replicate k ⟨commands, false, none⟩)

theorem Course.le_length {commands : List Command} {n i : Nat} {failure? : Option Failure}
    {records : List Record} (h : Course commands n failure? i records) : i ≤ commands.length := by
  cases h <;> omega

/-- The course of a delivery, by induction on the commands; `past` are those that all observers have
heard before. -/
theorem course_deliver [Observer ω] (put : β → Command → β) {n : Nat} (past commands : List Command)
    {observers : List (Recorded ω)} (report : Report) (output : β)
    (hrecords : observers.map Recorded.record = replicate n ⟨past, false, none⟩) :
    ∃ i, Course (past ++ commands) n (deliver put commands observers report output).failure?
        (past.length + i)
        ((deliver put commands observers report output).observers.map Recorded.record) ∧
      (deliver put commands observers report output).output =
        (commands.take i).foldl put output := by
  induction commands generalizing past observers report output with
  | nil =>
    refine ⟨0, ?_, rfl⟩
    rcases hnotify : notify Observer.onDone observers report with ⟨after, later, failure?⟩
    have hnotified := notified_of_notify hrecords rfl hnotify
    rw [deliver_nil hnotify, List.append_nil]
    dsimp only
    generalize after.map Recorded.record = records at hnotified ⊢
    cases hnotified with
    | all => exact .finished
    | upTo j k hn failure => exact .stoppedAtEnd j k hn failure
  | cons command rest ih =>
    rcases hnotify : notify (Observer.onCommand · command) observers report with
      ⟨after, later, failure?⟩
    have hnotified := notified_of_notify hrecords rfl hnotify
    generalize hafter : after.map Recorded.record = records at hnotified
    cases hnotified with
    | all =>
      obtain ⟨i, hcourse, houtput⟩ := ih (past ++ [command]) later (put output command) hafter
      rw [deliver_cons_of_none hnotify]
      refine ⟨i + 1, ?_, houtput⟩
      rwa [List.append_assoc, List.singleton_append, List.length_append, List.length_singleton,
        Nat.add_assoc, Nat.add_comm 1 i] at hcourse
    | upTo j k hn failure =>
      -- Some have heard this command, the others only those before it.
      have hheard : (past ++ command :: rest).take (past.length + 1) = past ++ [command] := by
        rw [List.take_length_add_append]
        rfl
      have hpast : (past ++ command :: rest).take past.length = past := List.take_left
      have hi : past.length < (past ++ command :: rest).length := by simp
      have hcourse := Course.stopped past.length hi j k hn failure
      rw [hheard, hpast] at hcourse
      rw [deliver_cons_of_some hnotify]
      dsimp only
      rw [hafter]
      exact ⟨0, hcourse, rfl⟩

/-- **Collecting and listing agree.** Commands that go through the same observers to be collected
and to be listed give the same report, leave the observers alike and are stopped by the same
failure, if any. If they are not stopped, all commands are collected and listed. If they are, none
is collected. There is one line for each command before the one that an observer stops the delivery
at, and for each command if it is stopped at the end: two blanks for each block that is open around
the command, and then the command as it is written. All observers hear the commands before that one,
and only those up to the observer that stops the delivery hear it; this one is the first that raises
a failure. -/
theorem collect_list_agree [Observer ω] (commands : List Command) (observers : List ω)
    (report : Report) :
    let collected := collect commands observers report
    let listed := list commands observers report
    let recorded := list commands (observers.map Recorded.ofObserver) report
    collected.report = listed.report ∧ collected.failure? = listed.failure? ∧
      collected.observers = listed.observers ∧ recorded.forget = listed ∧
      (listed.failure? = none →
        collected.output = commands ∧ listed.output.lines.length = commands.length) ∧
      (listed.failure? ≠ none → collected.output = []) ∧
      ∃ i, Course commands observers.length listed.failure? i
          (recorded.observers.map Recorded.record) ∧
        listed.output.lines.length = i ∧
        (∀ k command, k < i → commands[k]? = some command →
          listed.output.lines[k]? =
            some ("".pushn ' ' (2 * (command.around (commands.take k)).length) ++ command.render)) ∧
        listed.output.text.toList =
          listed.output.lines.flatMap fun line => line.toList ++ ['\n'] := by
  intro collected listed recorded
  obtain ⟨hreport, hfailure, hobservers⟩ : collected.report = listed.report ∧
      collected.failure? = listed.failure? ∧ collected.observers = listed.observers :=
    deliver_agree _ Listing.add commands observers report () .empty
  have hforget : recorded.forget = listed := by
    have hplain : (observers.map Recorded.ofObserver).map Recorded.observer = observers := by
      rw [List.map_map]
      exact List.map_id observers
    refine (deliver_recorded Listing.add commands _ report .empty).trans ?_
    rw [hplain]
    rfl
  have hrecords : (observers.map Recorded.ofObserver).map Recorded.record =
      replicate observers.length ⟨[], false, none⟩ := by
    rw [List.map_map]
    exact List.map_const'
  obtain ⟨i, hcourse, houtput⟩ :=
    course_deliver Listing.add [] commands report .empty hrecords
  rw [List.length_nil, Nat.zero_add] at hcourse
  have hlisted : listed.output = Listing.ofCommands (commands.take i) :=
    (congrArg Delivery.output hforget).symm.trans houtput
  replace hcourse : Course commands observers.length listed.failure? i
      (recorded.observers.map Recorded.record) :=
    congrArg Delivery.failure? hforget ▸ hcourse
  have hcollected : collected.output = if listed.failure?.isNone then commands else [] :=
    congrArg (fun failure? : Option Failure => if failure?.isNone then commands else []) hfailure
  have hlength : listed.output.lines.length = i := by
    rw [hlisted, Listing.length_lines_ofCommands, List.length_take_of_le hcourse.le_length]
  refine ⟨hreport, hfailure, hobservers, hforget, fun hnone => ?_, fun hsome => ?_, i, hcourse,
    hlength, fun k command hk hcommand => ?_, Listing.toList_text _⟩
  · rw [hnone] at hcollected
    have houtput : listed.output = Listing.ofCommands commands :=
      output_deliver Listing.add commands observers report .empty hnone
    exact ⟨hcollected, by rw [houtput, Listing.length_lines_ofCommands]⟩
  · rw [hcollected, if_neg]
    rwa [Option.isNone_iff_eq_none]
  · rw [← List.getElem?_take_of_lt hk] at hcommand
    rw [hlisted, Listing.getElem?_lines_ofCommands hcommand, Listing.line_ofCommands,
      List.take_take, Nat.min_eq_left (Nat.le_of_lt hk)]

/-- A delivery that is stopped at a variable: the observer behind the one that stops it is not told
of the variable, and the two lines before it are there. -/
theorem collect_list_agree_refused :
    let commands := [.bindingStart "v" (.text "x") ⟨1, 1⟩, .outText "t", .outVariable "v",
      .bindingEnd]
    let observers : List Watcher := [.log "a", .refuse "out v", .log "b"]
    let collected := collect commands observers .empty
    let listed := list commands observers .empty
    collected.output = [] ∧ listed.failure? = some (.call "handler" (.refused "out v")) ∧
      collected.failure? = listed.failure? ∧ collected.report = listed.report ∧
      listed.report.lines.reverse = ["a: let v = 'x' (0)", "b: let v = 'x' (0)", "a: out \"t\" (0)",
        "b: out \"t\" (0)", "a: out v (0)"] ∧
      listed.output.lines = ["let v = 'x'", "  out \"t\""] := by
  intro commands observers collected listed
  have hstopped : listed.failure? = some (.call "handler" (.refused "out v")) := by decide +kernel
  obtain ⟨hreport, hfailure, -, -, -, hempty, -⟩ := collect_list_agree commands observers .empty
  exact ⟨hempty (by rw [hstopped]; exact Option.some_ne_none _), hstopped, hfailure, hreport,
    by decide +kernel, by decide +kernel⟩

end Stencil
