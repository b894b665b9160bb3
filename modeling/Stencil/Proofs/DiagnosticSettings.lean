import Stencil.Proofs.Boundaries
import Stencil.Proofs.Compilation

/-!
# Settings that only diagnostics depend on

The globals, the strictness and the policy for hidden globals say what is reported, and the size of
the buffer says how a text is read. None of them has a part in the script of a template, which
depends on the filters alone. So two compilers with the same filters left out give the same
commands, or refuse the text for the same reason.

## Main definitions

* `Script.expressions`: the number of expressions that a script counts
* `Options.SameFilters`: options that leave out the same filters

## Main results

* `Script.expressions_play`: what a script counts does not depend on the session
* `Compiler.script_eq_of_filters`: the script depends on filters and directives alone
* `Compiler.compile_of_sameFilters`: the outcomes of two compilers with the same filters
-/

namespace Stencil

open Markup

/-! ### Counted expressions -/

/-- The number of expressions that a statement counts. -/
def Statement.expressions : Statement → Nat
  | .check .. => 1
  | _ => 0

/-- The number of expressions that a script counts. -/
def Script.expressions : Script → Nat
  | .done => 0
  | .statement first next => first.expressions + next.expressions
  | .block _ body next => body.expressions + next.expressions

theorem Statement.expressions_run (x : Statement) (s : Session) :
    (x.run s).expressions = s.expressions + x.expressions := by
  cases x with
  | check root here =>
    obtain ⟨reports, h⟩ := Session.exists_checkNames root here s
    rw [run, h]
    rfl
  | checkContext e here =>
    rw [run]
    split <;> rfl
  | declareGlobal name here =>
    obtain ⟨globals, reports, h⟩ := Session.exists_declareGlobal name here s
    rw [run, h]
    rfl
  | bindGlobal name value here =>
    obtain ⟨globals, reports, h⟩ :=
      Session.exists_declareGlobal name here (s.write (.globalBinding name value here))
    rw [run, Session.bindGlobal, h]
    rfl
  | _ => rfl

theorem Header.expressions_enter (header : Header) (s : Session) :
    (header.enter s).expressions = s.expressions := by
  obtain ⟨reports, h⟩ := exists_enter header s
  rw [h]

/-- A script counts the same expressions in every session, whatever is reported. -/
theorem Script.expressions_play (k : Script) (s : Session) :
    (k.play s).expressions = s.expressions + k.expressions := by
  induction k generalizing s with
  | done => rfl
  | statement x next ih =>
    rw [play, ih, x.expressions_run, expressions, Nat.add_assoc]
  | block header body next hbody ih =>
    rw [play, ih]
    simp only [Header.exit, hbody, header.expressions_enter, expressions, Nat.add_assoc]

/-! ### Two compilers -/

/-- The filters that are left depend on which options are left out, not on how they are listed. -/
theorem Pipeline.without_congr {disabled others : List String}
    (h : ∀ name, name ∈ disabled ↔ name ∈ others) : without disabled = without others := by
  unfold without
  refine List.filter_congr fun filter _ => ?_
  have hcontains : disabled.contains filter.option = others.contains filter.option := by
    rw [Bool.eq_iff_iff, List.contains_iff_mem, List.contains_iff_mem, h]
  rw [hcontains]

/-- Options that leave out the same filters; all else may differ. -/
def Options.SameFilters (options others : Options) : Prop :=
  ∀ name, name ∈ options.disabledFilters ↔ name ∈ others.disabledFilters

/-- Options under which nothing is reported of names. -/
def Options.quiet : Options := ⟨8192, [], .ignore, false, ["i18n", "join"]⟩

/-- Options under which more is reported than by default, with a buffer of one byte. -/
def Options.watchful : Options := ⟨1, ["entry"], .error, true, ["join", "i18n", "join"]⟩

namespace Compiler

variable {compiler other : Compiler}

/-- Globals, strictness, policy and buffer have no part in the script of a template. -/
theorem script_eq_of_filters (hfilters : compiler.filters = other.filters)
    (hdirectives : compiler.directives = other.directives) (template : Template) :
    compiler.script template = other.script template := by
  rw [script, script, hfilters, hdirectives]

/-- Compilers with the same filters and directives compile a template to the same commands. -/
theorem exists_compileTemplate_eq (hfilters : compiler.filters = other.filters)
    (hdirectives : compiler.directives = other.directives)
    (hunmarked : compiler.directives.Unmarked) (template : Template) :
    ∃ compilation diagnostics, compiler.compileTemplate template = .ok compilation ∧
      other.compileTemplate template = .ok { compilation with diagnostics } := by
  have hone := compileTemplate_eq hunmarked template
  have htwo := compileTemplate_eq (hdirectives ▸ hunmarked : other.directives.Unmarked) template
  -- Commands and counts are now those of one script, from two empty sessions.
  rw [← script_eq_of_filters hfilters hdirectives] at htwo
  simp only [commands_play_start, Script.expressions_play] at hone htwo
  exact ⟨_, _, hone, htwo⟩

/-- **Diagnostic settings.** Let two options be accepted and leave out the same filters. Then a text
is refused under both, for the same reason, or it is compiled under both, to the same commands and
with the same counts of elements and expressions: only the diagnostics can differ. -/
theorem compile_of_sameFilters {options others : Options}
    (hcompiler : ofOptions options = .ok compiler) (hother : ofOptions others = .ok other)
    (hsame : options.SameFilters others) (source : String) :
    (∃ failure, compiler.compile (Bytes.encode source.toList) = .error failure ∧
      other.compile (Bytes.encode source.toList) = .error failure) ∨
    ∃ compilation diagnostics, compiler.compile (Bytes.encode source.toList) = .ok compilation ∧
      other.compile (Bytes.encode source.toList) = .ok { compilation with diagnostics } := by
  obtain rfl := eq_of_ofOptions hcompiler
  obtain rfl := eq_of_ofOptions hother
  simp only [compile, Template.parse_encode]
  cases hread : Template.ofText source.toList with
  | error failure => exact .inl ⟨failure, rfl, rfl⟩
  | ok template =>
    right
    let first : Compiler := ⟨options, .without options.disabledFilters, .builtin⟩
    let second : Compiler := ⟨others, .without others.disabledFilters, .builtin⟩
    have hfilters : first.filters = second.filters := Pipeline.without_congr hsame
    exact exists_compileTemplate_eq hfilters rfl Registry.unmarked_builtin template

/-- A variable that has the name of a global, bound to a name that is not declared. -/
def entrySource : String :=
  "<p data-sly-set.entry='$\x7bpage\x7d'/>"

/-- Of the variable, watchful options report an error and a warning and quiet ones nothing; the
commands are the same. -/
theorem compile_of_sameFilters_watchful :
    ∃ compiler other compilation diagnostics,
      ofOptions .quiet = .ok compiler ∧
      ofOptions .watchful = .ok other ∧
      compiler.compile (Bytes.encode entrySource.toList) = .ok compilation ∧
      other.compile (Bytes.encode entrySource.toList) = .ok { compilation with diagnostics } ∧
      compilation.commands.length = 2 ∧ compilation.diagnostics = [] ∧ diagnostics.length = 2 := by
  have hcompiler : ofOptions .quiet = .ok ⟨.quiet, .without ["i18n", "join"], .builtin⟩ := rfl
  have hother : ofOptions .watchful =
      .ok ⟨.watchful, .without ["join", "i18n", "join"], .builtin⟩ := rfl
  have hsame : Options.quiet.SameFilters .watchful := by
    intro name
    change name ∈ ["i18n", "join"] ↔ name ∈ ["join", "i18n", "join"]
    grind
  obtain ⟨compilation, hcompile, hcommands⟩ :=
    exists_of_any (by decide +kernel :
      ((Compiler.mk .quiet (.without ["i18n", "join"]) .builtin).compile
        (Bytes.encode entrySource.toList)).toOption.any
          (fun c => c.commands.length == 2 && c.diagnostics.isEmpty) = true)
  obtain ⟨watched, hwatched, hdiagnostics⟩ :=
    exists_of_any (by decide +kernel :
      ((Compiler.mk .watchful (.without ["join", "i18n", "join"]) .builtin).compile
        (Bytes.encode entrySource.toList)).toOption.any (fun c => c.diagnostics.length == 2) = true)
  rcases compile_of_sameFilters hcompiler hother hsame entrySource with
    ⟨failure, hfails, -⟩ | ⟨first, diagnostics, hfirst, hsecond⟩
  · rw [hcompile] at hfails
    cases hfails
  · obtain rfl := Except.ok.inj (hcompile.symm.trans hfirst)
    obtain rfl := Except.ok.inj (hwatched.symm.trans hsecond)
    rw [Bool.and_eq_true, beq_iff_eq, List.isEmpty_iff] at hcommands
    exact ⟨_, _, compilation, diagnostics, hcompiler, hother, hcompile, hwatched, hcommands.1,
      hcommands.2, eq_of_beq hdiagnostics⟩

end Compiler

end Stencil
