import Stencil.Proofs.SettledScripts

/-!
# Names are checked before they are bound

The walk transforms an expression before it binds what the filters leave of it, and with that checks
the names in its root. All values that a directive binds are made from the root, but for the options
that it hands on and for the status of a loop, which refers to variables of the loop.

## Main results

* `Discipline.suits_settling`: the walk checks or declares what it binds
* `Compiler.resolves_or_reported`: names in bound values resolve or are reported
-/

namespace Stencil

open Discipline

/-- What binds a value is no text. -/
theorem Command.isText_of_bound? {command : Command} {bound : Term × Location}
    (h : command.bound? = some bound) : command.isText = false := by
  cases command <;> first | rfl | cases h

/-- The names of a value that are checked are those of the root that it is made of. -/
theorem Written.Makes.checkedNames_subset {filters : Pipeline} {source : Written}
    {placement? : Option Placement} {value : Term} (h : source.Makes filters placement? value) :
    value.checkedNames ⊆ (source.filtered filters placement?).root.names := by
  cases h with
  | root => exact Term.checkedNames_subset _
  | options => exact List.nil_subset _
  | handed hfunction =>
    rw [Term.checkedNames, if_pos (List.contains_iff_mem.2 hfunction)]
    exact List.Subset.refl _
  | attributes => simp [Term.checkedNames, Term.names, Term.namesOfItems]
  | choice tag => simp [Term.checkedNames, Term.names]

theorem Discipline.suits_settling (filters : Pipeline) : settling.Suits filters fun _ => True where
  expression _ _ _ _ := trivial
  value _ hmakes hknown _ hname := hknown ⟨hmakes.checkedNames_subset hname, rfl⟩
  status hlist hindex name hname := by
    rename_i m n _ _
    -- A name that is made is in lower case, so that it resolves as it is declared.
    have hstatus : name = Session.symbol n ∨ name = Session.symbol m := by
      simpa [Term.checkedNames, Term.names, Term.namesOfItems] using hname
    rcases hstatus with rfl | rfl
    · exact hindex ⟨rfl, Session.lower_symbol n⟩
    · exact hlist ⟨rfl, Session.lower_symbol m⟩
  variable_declared _ _ := trivial
  variable_bound _ _ := trivial
  symbol _ := trivial
  item := trivial
  status_name _ := trivial

namespace Compiler

open Markup

variable {options : Options} {compiler : Compiler} {bytes : List UInt8} {compilation : Compilation}

/-- The script of a template binds what it has checked or declared. -/
theorem settled_script (hdirectives : compiler.directives.Unmarked) (template : Template) :
    (compiler.script template).Settled ∅ := by
  have hadmits := template.admits_draft (Discipline.suits_settling compiler.filters) hdirectives
    (fun tag _ => ⟨fun _ _ _ _ _ => trivial, fun _ _ =>
      ⟨fun _ _ => trivial, fun _ _ => trivial, fun _ _ => trivial⟩⟩) ∅
  exact Script.settled_of_keeps (hadmits.script 0)

/-- **Strict names.** If names are strict, then of every value that is bound, in a block or in the
rest of the document, each name resolves in the session in which the command is written, or it is
named by a warning at the place of the binding; but for the names in options that are handed on to
the runtime. -/
theorem resolves_or_reported (hcompiler : ofOptions options = .ok compiler)
    (hstrict : options.strict = true) (hcompile : compiler.compile bytes = .ok compilation) :
    ∃ template, Template.parse options.bufferSize bytes = .ok template ∧
      ∀ before command after value here, compilation.commands = before ++ command :: after →
        command.bound? = some (value, here) →
          ∃ s, compiler.Writes template s command ∧ s.commands = before ∧
            ∀ name ∈ value.checkedNames, s.resolves name = true ∨
              ⟨.warning, here, .unresolved name⟩ ∈ compilation.diagnostics := by
  obtain ⟨template, htemplate, hcommands, hdiagnostics⟩ := exists_of_compile hcompiler hcompile
  refine ⟨template, htemplate, fun before command after value here hsplit hbound => ?_⟩
  have hsetup : compiler.setup.strict = true :=
    (congrArg (·.options.strict) (eq_of_ofOptions hcompiler)).trans hstrict
  have hinformed : Step.Along Step.Informed (compiler.steps template)
      (Session.start compiler.setup) :=
    Script.informed_steps (settled_script (unmarked_of_ofOptions hcompiler) template) hsetup
      Scope.proper_empty (Session.knows_empty _)
  -- A binding is no text, so that exactly one step has written it.
  have htext : command.isText = false := Command.isText_of_bound? hbound
  obtain ⟨s, hwrites, hbefore⟩ :=
    compiler.exists_writes template htext (hcommands.symm.trans hsplit)
  obtain ⟨step, hstep, hknown⟩ := hwrites.exists_of_along hinformed
  refine ⟨s, hwrites, hbefore, fun name hname => ?_⟩
  have hmem : command ∈ step.commands := by
    rw [hstep]
    exact List.mem_singleton.2 rfl
  refine (hknown command hmem value here hbound name hname).imp_right fun hreport => ?_
  rw [hdiagnostics]
  exact List.mem_append_left _ (List.mem_reverse.2 (hwrites.precedes.mem_reports hreport))

/-- Strict options under which the runtime provides a template. -/
def strictOptions : Options :=
  ⟨8192, ["card"], .warn, true, []⟩

/-- The compiler of these options. -/
def strictCompiler : Compiler :=
  ⟨strictOptions, .without [], .builtin⟩

/-- A loop over a name that is not declared. -/
def pagesSource : List UInt8 :=
  "<p data-sly-list='$\x7bpages\x7d'>$\x7bitem.title\x7d</p>".toUTF8.toList

/-- The list of the loop is bound to a name that is reported. -/
theorem resolves_or_reported_pages :
    ∃ compilation template before command after value here s,
      ofOptions strictOptions = .ok strictCompiler ∧
      strictCompiler.compile pagesSource = .ok compilation ∧
      compilation.commands = before ++ command :: after ∧
      command.bound? = some (value, here) ∧ value.checkedNames = ["pages"] ∧
      strictCompiler.Writes template s command ∧ s.commands = before ∧
      (s.resolves "pages" = true ∨
        ⟨.warning, here, .unresolved "pages"⟩ ∈ compilation.diagnostics) := by
  have hcompiler : ofOptions strictOptions = .ok strictCompiler := rfl
  obtain ⟨compilation, hcompile, hbinds⟩ := exists_of_any (by decide +kernel :
    (strictCompiler.compile pagesSource).toOption.any (fun c => c.commands.any fun command =>
      command.bound?.any fun bound => bound.1.checkedNames == ["pages"]) = true)
  obtain ⟨command, hmem, hcommand⟩ := List.any_eq_true.1 hbinds
  obtain ⟨⟨value, here⟩, hbound, hnames⟩ := (Option.any_eq_true _ _).1 hcommand
  obtain ⟨before, after, hsplit⟩ := List.append_of_mem hmem
  obtain ⟨template, -, hall⟩ := resolves_or_reported hcompiler rfl hcompile
  obtain ⟨s, hwrites, hbefore, hresolves⟩ := hall before command after value here hsplit hbound
  have hpages : "pages" ∈ value.checkedNames := by
    rw [eq_of_beq hnames]
    exact List.mem_cons_self
  exact ⟨compilation, template, before, command, after, value, here, s, hcompiler, hcompile, hsplit,
    hbound, eq_of_beq hnames, hwrites, hbefore, hresolves "pages" hpages⟩

/-- The call of a template with an argument that is not declared. -/
def cardSource : List UInt8 :=
  "<sly data-sly-call='$\x7bcard @ title=missing\x7d'></sly>".toUTF8.toList

/-- The arguments of a call are handed on unchecked: one of them does not resolve when they are
bound, and nothing is reported. -/
theorem arguments_unreported :
    ∃ compilation template command value here s,
      strictCompiler.compile cardSource = .ok compilation ∧
      Template.parse strictOptions.bufferSize cardSource = .ok template ∧
      strictCompiler.Writes template s command ∧ command ∈ compilation.commands ∧
      command.bound? = some (value, here) ∧ "missing" ∈ value.names ∧
      s.resolves "missing" = false ∧ compilation.diagnostics = [] := by
  obtain ⟨template, htemplate, hstep⟩ := exists_of_any (by decide +kernel :
    (Template.parse strictOptions.bufferSize cardSource).toOption.any (fun template =>
      (strictCompiler.stepAt? template 4).any fun taken => !taken.1.resolves "missing" &&
        taken.2.commands.any fun command => command.bound?.any fun bound =>
          bound.1.names.contains "missing") = true)
  obtain ⟨⟨s, step⟩, hat, hchecks⟩ := (Option.any_eq_true _ _).1 hstep
  obtain ⟨hresolves, hcommands⟩ := Bool.and_eq_true_iff.1 hchecks
  obtain ⟨command, hmem, hbinds⟩ := List.any_eq_true.1 hcommands
  obtain ⟨⟨value, here⟩, hbound, hnames⟩ := (Option.any_eq_true _ _).1 hbinds
  obtain ⟨compilation, hcompile, hsilent⟩ := exists_of_any (by decide +kernel :
    (strictCompiler.compile cardSource).toOption.any (fun c => c.diagnostics.isEmpty) = true)
  obtain ⟨other, hother, hwritten, -⟩ :=
    exists_of_compile (rfl : ofOptions strictOptions = .ok strictCompiler) hcompile
  obtain rfl := Except.ok.inj (htemplate.symm.trans hother)
  have hwrites : strictCompiler.Writes template s command := writes_of_stepAt? hat hmem
  have htext : command.isText = false := Command.isText_of_bound? hbound
  exact ⟨compilation, template, command, value, here, s, hcompile, htemplate, hwrites,
    hwritten ▸ hwrites.mem_commands htext, hbound, List.contains_iff_mem.1 hnames,
    by simpa using hresolves, List.isEmpty_iff.1 hsilent⟩

end Compiler

end Stencil
