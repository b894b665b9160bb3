import Stencil.Command.Watcher

/-!
# Nesting of commands

A command list is well nested if the commands that begin and end blocks match like brackets. The
blocks open after a list are followed by a small machine; a list on which it ends with no block open
is well nested, and the balance check finds nothing in it. Joining texts, as a stream does, changes
neither the blocks nor what stands around the other commands.

## Main definitions

* `Command.WellNested`: the starts and ends of blocks match
* `Command.blocksAfter`: the blocks open after commands, if no end is out of place
* `Command.enclosed`: each command with the commands whose blocks are open around it

## Main results

* `Command.wellNested_of_blocksAfter`: no block open at the end means well nested
* `Stream.enclosed_ofCommands`: what a stream keeps of what is written to it
* `Watcher.deliver_balance`: the balance check is silent where no block is left open
-/

namespace Stencil

namespace Command

/-! ### Matching starts and ends -/

/-- The commands that begin and end blocks match, each end with the latest start still open. -/
inductive WellNested : List Command → Prop where
  | nil : WellNested []
  | plain {command : Command} {rest : List Command} (hopens : command.opens? = none)
      (hcloses : command.closes? = none) (hrest : WellNested rest) : WellNested (command :: rest)
  | block {start close : Command} {body rest : List Command} {block : Block}
      (hopens : start.opens? = some block) (hcloses : close.closes? = some block)
      (hbody : WellNested body) (hrest : WellNested rest) :
      WellNested (start :: (body ++ close :: rest))

/-- The open blocks, innermost first, after one more command; an end has to match the innermost. -/
def blockStep (opened : List Block) (command : Command) : Option (List Block) :=
  match command.opens?, command.closes?, opened with
  | some block, _, opened => some (block :: opened)
  | none, none, opened => some opened
  | none, some block, inner :: outer => if inner = block then some outer else none
  | none, some _, [] => none

/-- The open blocks after commands, before which `opened` were open. -/
def blocksAfter (opened : List Block) (commands : List Command) : Option (List Block) :=
  commands.foldlM blockStep opened

section Blocks

variable {opened : List Block} {command : Command} {block : Block}

@[simp] theorem blocksAfter_nil (opened : List Block) : blocksAfter opened [] = some opened := rfl

@[simp] theorem blocksAfter_cons (opened : List Block) (command : Command) (rest : List Command) :
    blocksAfter opened (command :: rest) = (blockStep opened command).bind (blocksAfter · rest) :=
  List.foldlM_cons

@[simp] theorem blocksAfter_append (opened : List Block) (first second : List Command) :
    blocksAfter opened (first ++ second) =
      (blocksAfter opened first).bind (blocksAfter · second) :=
  List.foldlM_append

theorem blockStep_of_opens (h : command.opens? = some block) :
    blockStep opened command = some (block :: opened) := by
  simp [blockStep, h]

theorem blockStep_of_plain (hopens : command.opens? = none) (hcloses : command.closes? = none) :
    blockStep opened command = some opened := by
  simp [blockStep, hopens, hcloses]

/-- No command both begins and ends a block. -/
theorem opens?_eq_none_of_closes? (h : command.closes? = some block) : command.opens? = none := by
  cases command <;> first | rfl | cases h

theorem blockStep_of_closes (h : command.closes? = some block) :
    blockStep (block :: opened) command = some opened := by
  simp [blockStep, h, opens?_eq_none_of_closes? h]

/-- Inside a block that is ended later, the commands up to its end are well nested. -/
theorem exists_close_of_blocksAfter :
    ∀ (commands : List Command) (block : Block) (opened : List Block),
      blocksAfter (block :: opened) commands = some [] →
        ∃ body close rest, commands = body ++ close :: rest ∧ WellNested body ∧
          close.closes? = some block ∧ blocksAfter opened rest = some [] := by
  intro commands
  -- The recursion goes on behind the end of an inner block, so it is on the length.
  induction hlength : commands.length using Nat.strongRecOn generalizing commands with
  | _ n ih =>
    intro block opened h
    cases commands with
    | nil => cases h
    | cons command rest =>
      rw [blocksAfter_cons] at h
      cases hopens : command.opens? with
      | some inner =>
        rw [blockStep_of_opens hopens] at h
        obtain ⟨body, close, rest', rfl, hbody, hclose, hrest⟩ :=
          ih rest.length (by simp [← hlength]) rest rfl inner (block :: opened) h
        obtain ⟨body', close', rest'', rfl, hbody', hclose', hrest'⟩ :=
          ih rest'.length (by simp [← hlength]; omega) rest' rfl block opened hrest
        exact ⟨command :: (body ++ close :: body'), close', rest'', by simp,
          .block hopens hclose hbody hbody', hclose', hrest'⟩
      | none =>
        cases hcloses : command.closes? with
        | none =>
          rw [blockStep_of_plain hopens hcloses] at h
          obtain ⟨body, close, rest', rfl, hbody, hclose, hrest⟩ :=
            ih rest.length (by simp [← hlength]) rest rfl block opened h
          exact ⟨command :: body, close, rest', rfl, .plain hopens hcloses hbody, hclose, hrest⟩
        | some ended =>
          by_cases hsame : block = ended
          · subst hsame
            rw [blockStep_of_closes hcloses] at h
            exact ⟨[], command, rest, rfl, .nil, hcloses, h⟩
          · simp [blockStep, hopens, hcloses, hsame] at h

/-- If no block is open after the commands, they are well nested. -/
theorem wellNested_of_blocksAfter {commands : List Command}
    (h : blocksAfter [] commands = some []) : WellNested commands := by
  induction hlength : commands.length using Nat.strongRecOn generalizing commands with
  | _ n ih =>
    cases commands with
    | nil => exact .nil
    | cons command rest =>
      rw [blocksAfter_cons] at h
      cases hopens : command.opens? with
      | some block =>
        rw [blockStep_of_opens hopens] at h
        obtain ⟨body, close, rest', rfl, hbody, hclose, hrest⟩ :=
          exists_close_of_blocksAfter rest block [] h
        exact .block hopens hclose hbody (ih rest'.length (by simp [← hlength]; omega) hrest rfl)
      | none =>
        cases hcloses : command.closes? with
        | none =>
          rw [blockStep_of_plain hopens hcloses] at h
          exact .plain hopens hcloses (ih rest.length (by simp [← hlength]) h rfl)
        | some block => simp [blockStep, hopens, hcloses] at h

end Blocks

/-! ### Commands in their blocks -/

/-- The commands whose blocks are open after one more command, innermost first. -/
def track (stack : List Command) (command : Command) : List Command :=
  if command.opens?.isSome then command :: stack
  else if command.closes?.isSome then stack.tail
  else stack

/-- The commands whose blocks are open after commands, innermost first. -/
def opened (before : List Command) : List Command :=
  before.foldl track []

/-- Each command with the commands whose blocks are open around it, innermost first; around all of
them those of `stack` are open. -/
def enclosed (stack : List Command) : List Command → List (List Command × Command)
  | [] => []
  | command :: rest => (stack, command) :: enclosed (track stack command) rest

/-- Whether a command declares a name, up to case. -/
def declares (name : String) (command : Command) : Bool :=
  command.declared.any fun (declared, _) => Text.lower declared = Text.lower name

/-- The innermost declaration of a name among the commands whose blocks are open. -/
def innermost? (name : String) (stack : List Command) : Option Command :=
  stack.find? (declares name)

/-- Whether a command writes a text. -/
def isText : Command → Bool
  | .outText _ => true
  | _ => false

/-- The commands that do not write a text. -/
def withoutTexts (commands : List Command) : List Command :=
  commands.filter fun command => !command.isText

@[simp] theorem withoutTexts_append (first second : List Command) :
    withoutTexts (first ++ second) = withoutTexts first ++ withoutTexts second :=
  List.filter_append ..

theorem map_snd_enclosed (stack : List Command) (commands : List Command) :
    (enclosed stack commands).map (·.2) = commands := by
  induction commands generalizing stack with
  | nil => rfl
  | cons command rest ih => rw [enclosed, List.map_cons, ih]

theorem enclosed_append (stack : List Command) (first second : List Command) :
    enclosed stack (first ++ second) =
      enclosed stack first ++ enclosed (first.foldl track stack) second := by
  induction first generalizing stack with
  | nil => rfl
  | cons command rest ih => simp [enclosed, ih]

/-- Texts are in no other command's way. -/
theorem filter_enclosed (stack : List Command) (commands : List Command) :
    (enclosed stack commands).filter (fun site => !site.2.isText) =
      enclosed stack (withoutTexts commands) := by
  induction commands generalizing stack with
  | nil => rfl
  | cons command rest ih =>
    cases command with
    | outText text => simpa [enclosed, withoutTexts, isText, track, opens?, closes?] using ih stack
    | _ => simpa [enclosed, withoutTexts, isText] using ih _

theorem blocksAfter_withoutTexts (opened : List Block) (commands : List Command) :
    blocksAfter opened (withoutTexts commands) = blocksAfter opened commands := by
  induction commands generalizing opened with
  | nil => rfl
  | cons command rest ih =>
    by_cases htext : command.isText
    · have hplain : blockStep opened command = some opened := by
        cases command <;> first | rfl | cases htext
      rw [blocksAfter_cons, hplain, Option.bind_some, ← ih, withoutTexts, withoutTexts,
        List.filter_cons_of_neg (by simp [htext])]
    · have hkept : withoutTexts (command :: rest) = command :: withoutTexts rest :=
        List.filter_cons_of_pos (by simp [htext])
      simp only [hkept, blocksAfter_cons, ih]

end Command

/-! ### What a stream keeps -/

namespace Stream

open Command

theorem withoutTexts_write (stream : Stream) (command : Command) :
    withoutTexts (stream.write command).commands =
      withoutTexts stream.commands ++ withoutTexts [command] := by
  cases command with
  | outText text =>
    -- A text is joined to the one before it or stands alone; in both cases it is left out here.
    have hjoined : withoutTexts (writeText text stream.latestFirst).reverse =
        withoutTexts stream.latestFirst.reverse := by
      unfold writeText
      split
      · next before rest heq => simp [withoutTexts, isText, heq]
      · simp [withoutTexts, isText]
    rw [write]
    split
    · simp [withoutTexts, isText]
    · simpa [commands, withoutTexts, isText] using hjoined
  | _ => simp [write, commands]

theorem withoutTexts_foldl_write (stream : Stream) (written : List Command) :
    withoutTexts (written.foldl write stream).commands =
      withoutTexts stream.commands ++ withoutTexts written := by
  induction written generalizing stream with
  | nil => simp [withoutTexts]
  | cons command rest ih =>
    rw [List.foldl_cons, ih, withoutTexts_write, List.append_assoc, ← withoutTexts_append]
    rfl

/-- A stream keeps all commands but texts as they were written. -/
theorem withoutTexts_ofCommands (written : List Command) :
    withoutTexts (ofCommands written).commands = withoutTexts written := by
  simpa [ofCommands, withoutTexts] using withoutTexts_foldl_write empty written

/-- A stream keeps the blocks of what is written. -/
theorem blocksAfter_ofCommands (opened : List Block) (written : List Command) :
    blocksAfter opened (ofCommands written).commands = blocksAfter opened written := by
  rw [← blocksAfter_withoutTexts, withoutTexts_ofCommands, blocksAfter_withoutTexts]

/-- A stream keeps what stands around the commands other than texts. -/
theorem enclosed_ofCommands (stack : List Command) (written : List Command) :
    (enclosed stack (ofCommands written).commands).filter (fun site => !site.2.isText) =
      (enclosed stack written).filter fun site => !site.2.isText := by
  rw [filter_enclosed, filter_enclosed, withoutTexts_ofCommands]

end Stream

/-! ### The balance check -/

namespace Balance

/-- Where no end is out of place, the check is silent and holds the open blocks. -/
theorem step_of_blockStep {balance : Balance} {command : Command} {blocks : List Block}
    (h : Command.blockStep (balance.opened.map (·.1)) command = some blocks) :
    (balance.step command).2 = [] ∧ (balance.step command).1.opened.map (·.1) = blocks := by
  obtain ⟨opened, latest⟩ := balance
  cases hcloses : command.closes? with
  | some block =>
    cases opened with
    | nil => simp [Command.blockStep, Command.opens?_eq_none_of_closes? hcloses, hcloses] at h
    | cons inner outer =>
      simp only [Command.blockStep, Command.opens?_eq_none_of_closes? hcloses, hcloses,
        List.map_cons] at h
      split at h
      · next hsame =>
        simp only [Option.some.injEq] at h
        simp [step, close, hcloses, hsame, h]
      · cases h
  | none =>
    cases hopens : command.opens? with
    | some block =>
      rw [Command.blockStep_of_opens hopens] at h
      simp only [Option.some.injEq] at h
      simp [step, hcloses, hopens, ← h]
    | none =>
      rw [Command.blockStep_of_plain hopens hcloses] at h
      simp only [Option.some.injEq] at h
      simp [step, hcloses, hopens, ← h]

end Balance

variable {ω β : Type}

/-- Two lists of observers react one after the other, the second only if the first lets it. -/
theorem notify_append (react : ω → Report → Reaction ω) (first second : List ω) (report : Report) :
    notify react (first ++ second) report =
      let before := notify react first report
      match before.failure? with
      | some failure => ⟨before.observer ++ second, before.report, some failure⟩
      | none =>
        let after := notify react second before.report
        ⟨before.observer ++ after.observer, after.report, after.failure?⟩ := by
  induction first generalizing report with
  | nil => rfl
  | cons observer rest ih =>
    simp only [List.cons_append, notify]
    cases (react observer report).failure? with
    | some failure => rfl
    | none =>
      simp only [ih]
      cases (notify react rest (react observer report).report).failure? <;> rfl

namespace Watcher

@[simp] theorem addAll_nil (report : Report) : report.addAll [] = report := rfl

/-- Behind other watchers, the balance check of commands that leave no block open changes neither
what is reported nor whether the delivery is stopped. -/
theorem deliver_balance (put : β → Command → β) {commands : List Command} (balance : Balance)
    (h : Command.blocksAfter (balance.opened.map (·.1)) commands = some [])
    (others : List Watcher) (report : Report) (output : β) :
    let both := deliver put commands (others ++ [.balance balance]) report output
    let alone := deliver put commands others report output
    both.report = alone.report ∧ both.failure? = alone.failure? := by
  induction commands generalizing balance others report output with
  | nil =>
    simp only [Command.blocksAfter_nil, Option.some.injEq, List.map_eq_nil_iff] at h
    simp only [deliver, notify_append]
    cases hstop : (notify Observer.onDone others report).failure? with
    | some failure => simp
    | none => simp [notify, Observer.onDone, onDone, Balance.finish, h]
  | cons command rest ih =>
    rw [Command.blocksAfter_cons] at h
    -- The check comes behind the others: a command that one of them stops never reaches it.
    obtain ⟨blocks, hstep, hrest⟩ := Option.bind_eq_some_iff.1 h
    obtain ⟨hsilent, hblocks⟩ := Balance.step_of_blockStep hstep
    simp only [deliver, notify_append]
    cases hstop : (notify (fun watcher => Observer.onCommand watcher command) others
        report).failure? with
    | some failure => simp
    | none =>
      simp only [notify, Observer.onCommand, onCommand, hsilent, addAll_nil]
      exact ih _ (hblocks ▸ hrest) _ _ _

theorem addAll_addAll (report : Report) (first second : List Diagnostic) :
    (report.addAll first).addAll second = report.addAll (first ++ second) := by
  simp [Report.addAll]

/-- The check for hidden globals never stops a delivery, and reports command by command. -/
theorem deliver_shadow (put : β → Command → β) (globals : List String) (policy : ShadowPolicy)
    (commands : List Command) (report : Report) (output : β) :
    deliver put commands [shadow globals policy] report output =
      ⟨[shadow globals policy], report.addAll (commands.flatMap (shadowReports globals policy)),
        commands.foldl put output, none⟩ := by
  induction commands generalizing report output with
  | nil => rfl
  | cons command rest ih =>
    rw [List.flatMap_cons, ← addAll_addAll]
    exact ih _ _

end Watcher

end Stencil
