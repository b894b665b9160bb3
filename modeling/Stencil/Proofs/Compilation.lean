import Stencil.Compiler
import Stencil.Proofs.Follows

/-!
# Compilations

With the directives of the language the walk over a template plays the script of the template, from
an empty session. So a template that can be read is always compiled, its commands are those of the
script, and at the end all blocks are closed.

## Main definitions

* `Compiler.script`: the script of a template

## Main results

* `Compiler.walk_eq`, `Compiler.compileTemplate_eq`: walk and compilation in terms of the script
* `Compiler.exists_walk_closed`: the walk succeeds and closes what it opens
-/

namespace Stencil

open Markup

/-- The directives of the language leave no marks. -/
theorem Registry.unmarked_builtin : builtin.Unmarked := by
  intro name directive hfind
  have hall : ∀ entry ∈ builtin, entry.2.isProbe = false := by decide
  exact hall _ (Entries.mem_of_find?_eq_some hfind)

theorem exists_of_any {ε α : Type} {result : Except ε α} {check : α → Bool}
    (h : result.toOption.any check = true) : ∃ value, result = .ok value ∧ check value = true := by
  cases result with
  | ok value => exact ⟨value, rfl, h⟩
  | error failure => cases h

/-- A template with blocks of all kinds. -/
def blocksSource : List UInt8 :=
  ("<p data-sly-template.t='$\x7b@ a\x7d'><script data-sly-test='$\x7bb\x7d'>$\x7ba\x7d</script>" ++
    "<i data-sly-repeat='$\x7ba\x7d'>$\x7bitem @ context='é'\x7d</i></p>").toUTF8.toList

namespace Compiler

theorem ofOptions_default (size : Nat) :
    ofOptions { Options.default with bufferSize := size } =
      .ok ⟨{ Options.default with bufferSize := size }, .without [], .builtin⟩ := by
  rfl

variable {options : Options} {compiler : Compiler} {bytes : List UInt8} {template : Template}

/-- The compiler of options has the directives of the language and the filters that are left. -/
theorem eq_of_ofOptions (h : ofOptions options = .ok compiler) :
    compiler = ⟨options, .without options.disabledFilters, .builtin⟩ := by
  unfold ofOptions at h
  split at h
  · cases h
  · split at h
    · cases h
    · exact (Except.ok.inj h).symm

/-- The script of a template. -/
def script (compiler : Compiler) (template : Template) : Script :=
  (template.draft compiler.filters compiler.directives).script 0

/-- The walk plays the script. -/
theorem walk_eq (hdirectives : compiler.directives.Unmarked) (template : Template) :
    compiler.walk template =
      .ok ((compiler.script template).play (Session.start compiler.setup)) := by
  have hrun := (template.follows_emit hdirectives).run (Session.start compiler.setup) rfl
    Scope.proper_empty
  rw [walk, hrun]
  rfl

/-- The stream merges the texts of the script and keeps the other commands. -/
theorem commands_play_start (compiler : Compiler) (k : Script) :
    (k.play (Session.start compiler.setup)).commands = (Stream.ofCommands k.commands).commands := by
  rw [Session.commands, k.stream_play]
  rfl

/-- The commands of a script close the blocks that they open. -/
theorem blocksAfter_play_start (compiler : Compiler) (k : Script) :
    Command.blocksAfter [] (k.play (Session.start compiler.setup)).commands = some [] := by
  rw [commands_play_start, Stream.blocksAfter_ofCommands, k.blocksAfter_commands]

/-- Of commands that close their blocks the checks let all pass, and report only what hides a
global. -/
theorem collect_checks (compiler : Compiler) {commands : List Command}
    (hclosed : Command.blocksAfter [] commands = some []) (report : Report) :
    let delivery := collect commands compiler.checks report
    delivery.output = commands ∧ delivery.failure? = none ∧
      delivery.report = report.addAll (commands.flatMap
        (Watcher.shadowReports (compiler.options.globals.map Text.lower)
          compiler.options.shadowPolicy)) := by
  obtain ⟨hreport, hfailure⟩ := Watcher.deliver_balance (fun (_ : Unit) _ => ()) .start hclosed
    [.ofGlobals compiler.options.globals compiler.options.shadowPolicy] report ()
  simp only [Watcher.ofGlobals, Watcher.deliver_shadow, List.cons_append, List.nil_append]
    at hreport hfailure
  simp only [collect, checks, Watcher.ofGlobals, hreport, hfailure, Option.isNone_none, if_true,
    and_self]

/-- With directives that leave no marks every template is compiled, and of the checks only that for
hidden globals finds something. -/
theorem compileTemplate_eq (hdirectives : compiler.directives.Unmarked) (template : Template) :
    let session := (compiler.script template).play (Session.start compiler.setup)
    compiler.compileTemplate template = .ok
      { commands := session.commands
        diagnostics := session.diagnostics ++ session.commands.flatMap
          (Watcher.shadowReports (compiler.options.globals.map Text.lower)
            compiler.options.shadowPolicy)
        elements := template.elementCount
        expressions := session.expressions } := by
  have hwalk := walk_eq hdirectives template
  have hclosed := blocksAfter_play_start compiler (compiler.script template)
  -- Of the session only this counts: the walk ends in it, and its commands close their blocks.
  generalize (compiler.script template).play (Session.start compiler.setup) = session
    at hwalk hclosed ⊢
  obtain ⟨houtput, hfailure, hreport⟩ := compiler.collect_checks hclosed ⟨session.reports, []⟩
  simp only [compileTemplate, hwalk, bind, Except.bind, hfailure, houtput, hreport]
  simp [Report.addAll, Session.diagnostics]

theorem unmarked_of_ofOptions (h : ofOptions options = .ok compiler) :
    compiler.directives.Unmarked :=
  congrArg Compiler.directives (eq_of_ofOptions h) ▸ Registry.unmarked_builtin

/-- What is compiled comes from the session in which the walk over the template ends. -/
theorem exists_of_compile {compilation : Compilation} (hcompiler : ofOptions options = .ok compiler)
    (hcompile : compiler.compile bytes = .ok compilation) :
    ∃ template, Template.parse options.bufferSize bytes = .ok template ∧
      let session := (compiler.script template).play (Session.start compiler.setup)
      compilation.commands = session.commands ∧
        compilation.diagnostics = session.diagnostics ++ session.commands.flatMap
          (Watcher.shadowReports (options.globals.map Text.lower) options.shadowPolicy) := by
  obtain rfl := eq_of_ofOptions hcompiler
  rw [compile] at hcompile
  cases htemplate : Template.parse options.bufferSize bytes with
  | error failure =>
    rw [htemplate] at hcompile
    cases hcompile
  | ok template =>
    rw [htemplate] at hcompile
    have heq := (compileTemplate_eq Registry.unmarked_builtin template).symm.trans hcompile
    obtain rfl := Except.ok.inj heq
    exact ⟨template, rfl, rfl, rfl⟩

/-- What can be read can be compiled. -/
theorem exists_compile (hcompiler : ofOptions options = .ok compiler)
    (htemplate : Template.parse options.bufferSize bytes = .ok template) :
    ∃ compilation, compiler.compile bytes = .ok compilation := by
  obtain rfl := eq_of_ofOptions hcompiler
  rw [compile, htemplate]
  exact ⟨_, compileTemplate_eq Registry.unmarked_builtin template⟩

/-- For all options and all bytes that can be read as a template, the walk over the template
succeeds and closes what it opens: the commands are well nested, so that the balance check, behind
whichever other checks, adds no diagnostic, and at the end no variable is declared, no procedure is
open and no element that holds raw text. So the bytes are compiled to the commands of the walk. -/
theorem exists_walk_closed (hcompiler : ofOptions options = .ok compiler)
    (htemplate : Template.parse options.bufferSize bytes = .ok template) :
    ∃ session, compiler.walk template = .ok session ∧
      Command.WellNested session.commands ∧
      (∀ (others : List Watcher) (report : Report),
        (collect session.commands (others ++ [.balance .start]) report).report =
          (collect session.commands others report).report) ∧
      session.scope = .empty ∧ session.procedures = [] ∧ session.rawDepth = 0 ∧
      compiler.compile bytes = .ok
        { commands := session.commands
          diagnostics := session.diagnostics ++ session.commands.flatMap
            (Watcher.shadowReports (options.globals.map Text.lower) options.shadowPolicy)
          elements := template.elementCount
          expressions := session.expressions } := by
  have heq := eq_of_ofOptions hcompiler
  have hoptions : compiler.options = options := congrArg Compiler.options heq
  have hdirectives : compiler.directives.Unmarked :=
    congrArg Compiler.directives heq ▸ Registry.unmarked_builtin
  have hclosed := blocksAfter_play_start compiler (compiler.script template)
  have hlevel := (compiler.script template).level_play (.start compiler.setup)
  refine ⟨_, walk_eq hdirectives template, Command.wellNested_of_blocksAfter hclosed,
    fun others report => ?_, hlevel.scope, hlevel.procedures, hlevel.rawDepth, ?_⟩
  · exact (Watcher.deliver_balance _ .start hclosed others report ()).1
  · have hcompile := compileTemplate_eq hdirectives template
    rw [hoptions] at hcompile
    rw [compile, hoptions, htemplate]
    exact hcompile

/-- The end of blocks of all kinds, in and around an element that holds raw text, three bytes at a
time. -/
theorem exists_walk_closed_blocks :
    ∃ compiler template session,
      ofOptions { Options.default with bufferSize := 3 } = .ok compiler ∧
      Template.parse 3 blocksSource = .ok template ∧ template.elementCount = 3 ∧
      compiler.walk template = .ok session ∧ Command.WellNested session.commands ∧
      session.scope = .empty ∧ session.procedures = [] ∧ session.rawDepth = 0 := by
  obtain ⟨template, htemplate, hcount⟩ : ∃ template,
      Template.parse 3 blocksSource = .ok template ∧ (template.elementCount == 3) = true :=
    exists_of_any (by decide +kernel)
  have hcompiler := ofOptions_default 3
  obtain ⟨session, hwalk, hnested, -, hscope, hprocedures, hraw, -⟩ :=
    exists_walk_closed hcompiler htemplate
  exact ⟨_, template, session, hcompiler, htemplate, eq_of_beq hcount, hwalk, hnested, hscope,
    hprocedures, hraw⟩

end Compiler

end Stencil
