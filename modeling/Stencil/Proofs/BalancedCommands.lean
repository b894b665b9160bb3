import Stencil.Proofs.Nesting

/-!
# What the balance check finds

The balance check follows the open blocks and goes on after a command that is out of place: an end
of another kind still ends the innermost block, an end of no block ends nothing. From there on its
open blocks are no longer those of the commands. But what it has reported stays reported, so up to
the first report they are, and this is all that matters for whether there is one.

## Main definitions

* `Balance.reports`: what the check reports of commands and of their end

## Main results

* `Command.wellNested_iff`: well nested commands leave no block open
* `Balance.reports_eq_nil_iff`: the check is silent just if no end is out of place and no block is
  left open
* `Watcher.deliver_balance_exact`: the check is silent just on well nested commands, and reports
  nothing but errors
-/

namespace Stencil

namespace Command

variable {commands : List Command}

/-- Well nested commands leave those blocks open that were open before them. -/
theorem WellNested.blocksAfter (h : WellNested commands) (opened : List Block) :
    blocksAfter opened commands = some opened := by
  induction h generalizing opened with
  | nil => rfl
  | plain hopens hcloses _ ih =>
    rw [blocksAfter_cons, blockStep_of_plain hopens hcloses, Option.bind_some, ih]
  | block hopens hcloses _ _ ihbody ihrest =>
    rw [blocksAfter_cons, blockStep_of_opens hopens, Option.bind_some, blocksAfter_append, ihbody,
      Option.bind_some, blocksAfter_cons, blockStep_of_closes hcloses, Option.bind_some, ihrest]

theorem wellNested_iff : WellNested commands ↔ blocksAfter [] commands = some [] :=
  ⟨fun h => h.blocksAfter [], wellNested_of_blocksAfter⟩

end Command

namespace Balance

/-- What the check reports of commands one after the other, and then of the end. -/
def reports (balance : Balance) : List Command → List Diagnostic
  | [] => balance.finish
  | command :: rest => (balance.step command).2 ++ reports (balance.step command).1 rest

variable {balance : Balance} {command : Command} {diagnostic : Diagnostic}

/-- A command that is out of place is reported. -/
theorem step_ne_nil_of_blockStep
    (h : Command.blockStep (balance.opened.map (·.1)) command = none) :
    (balance.step command).2 ≠ [] := by
  obtain ⟨opened, latest⟩ := balance
  cases hcloses : command.closes? with
  | none =>
    -- Only an end can be out of place.
    cases hopens : command.opens? with
    | none => rw [Command.blockStep_of_plain hopens hcloses] at h; cases h
    | some block => rw [Command.blockStep_of_opens hopens] at h; cases h
  | some block =>
    cases opened with
    | nil => simp [step, close, hcloses]
    | cons inner outer =>
      have hother : inner.1 ≠ block := by
        rintro rfl
        rw [List.map_cons, Command.blockStep_of_closes hcloses] at h
        cases h
      simp [step, close, hcloses, hother]

/-- The check is silent just if no command is out of place and none of the open blocks is left. -/
theorem reports_eq_nil_iff (balance : Balance) (commands : List Command) :
    balance.reports commands = [] ↔
      Command.blocksAfter (balance.opened.map (·.1)) commands = some [] := by
  induction commands generalizing balance with
  | nil => simp [reports, finish]
  | cons command rest ih =>
    rw [reports, List.append_eq_nil_iff, Command.blocksAfter_cons]
    cases hstep : Command.blockStep (balance.opened.map (·.1)) command with
    | none =>
      -- One report is enough, whatever the check makes of the commands behind it.
      have hreported := step_ne_nil_of_blockStep hstep
      simp [hreported]
    | some blocks =>
      obtain ⟨hsilent, hblocks⟩ := step_of_blockStep hstep
      rw [ih, hblocks, Option.bind_some]
      exact and_iff_right hsilent

theorem severity_of_mem_step (h : diagnostic ∈ (balance.step command).2) :
    diagnostic.severity = .error := by
  unfold step at h
  split at h
  · unfold close at h
    split at h
    · rw [List.mem_singleton.1 h]
    · simp only at h
      split at h
      · cases h
      · rw [List.mem_singleton.1 h]
  · simp only at h
    split at h <;> cases h

theorem severity_of_mem_finish (h : diagnostic ∈ balance.finish) :
    diagnostic.severity = .error := by
  obtain ⟨opened, -, rfl⟩ := List.mem_map.1 h
  rfl

/-- All that the check reports is an error. -/
theorem severity_of_mem_reports {commands : List Command}
    (h : diagnostic ∈ balance.reports commands) : diagnostic.severity = .error := by
  induction commands generalizing balance with
  | nil => exact severity_of_mem_finish h
  | cons command rest ih =>
    rw [reports, List.mem_append] at h
    exact h.elim severity_of_mem_step ih

end Balance

namespace Watcher

variable {β : Type}

/-- The balance check never stops a delivery, and adds what it reports to what is there. -/
theorem deliver_reports (put : β → Command → β) (commands : List Command) (balance : Balance)
    (report : Report) (output : β) :
    let delivery := deliver put commands [Watcher.balance balance] report output
    delivery.failure? = none ∧ delivery.output = commands.foldl put output ∧
      delivery.report = report.addAll (balance.reports commands) := by
  induction commands generalizing balance report output with
  | nil => exact ⟨rfl, rfl, rfl⟩
  | cons command rest ih =>
    rw [Balance.reports, ← addAll_addAll]
    exact ih (balance.step command).1 (report.addAll (balance.step command).2) (put output command)

/-- **Balance.** Whatever the commands, the balance check lets all of them through to the end, and
what it adds to the report is nothing just if the commands are well nested; all of it is errors. -/
theorem deliver_balance_exact (put : β → Command → β) (commands : List Command) (report : Report)
    (output : β) :
    let delivery := deliver put commands [Watcher.balance .start] report output
    delivery.failure? = none ∧ delivery.output = commands.foldl put output ∧
      ∃ found, delivery.report = report.addAll found ∧
        (found = [] ↔ Command.WellNested commands) ∧
        ∀ diagnostic ∈ found, diagnostic.severity = .error := by
  obtain ⟨hfailure, houtput, hreport⟩ := deliver_reports put commands .start report output
  refine ⟨hfailure, houtput, _, hreport, ?_, fun diagnostic => Balance.severity_of_mem_reports⟩
  rw [Balance.reports_eq_nil_iff, Command.wellNested_iff]
  rfl

end Watcher

end Stencil
