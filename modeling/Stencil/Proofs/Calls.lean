import Stencil.Proofs.ActsShown
import Stencil.Proofs.Filters

/-!
# Calls and definitions of procedures

A definition takes all options of its expression for parameters. A call sends its expression through
the filters first, so that the options that filters take do not reach the procedure, and the filters
they set to work change what is called. So a call passes its options as they are just if none of
them sets a filter to work.

## Main definitions

* `Written.callValues`: what the variables of a call are bound to
* `Markup.Template.calls`, `Markup.Template.definitions`: calls and definitions of a template
* `Command.calls`, `Command.definitions`: calls and definitions among commands

## Main results

* `Written.callValues_eq_iff`: when a call passes its options as they are
* `Compiler.calls_compile`: calls and definitions among compiled commands
* `Compiler.calls_pass_options`: calls and the parameters that they can pass
-/

namespace Stencil

open Markup (Template)

namespace Written

variable (source : Written)

/-- The arguments of a call, with the filters of the language: the options that no filter takes. -/
def arguments : Entries Term :=
  source.expression.options.without (Pipeline.builtin.taken source.expression)

/-- The values to which a call binds the procedure and the arguments. -/
def callValues : Term × Term :=
  ((Pipeline.builtin.apply source.expression).root, .map source.arguments)

theorem options_apply_builtin :
    (Pipeline.builtin.apply source.expression).options = source.arguments :=
  Pipeline.options_apply Pipeline.disjoint_builtin source.expression

/-- A call passes its options as they are, to what its expression stands for, just if none of them
sets a filter to work. -/
theorem callValues_eq_iff :
    source.callValues = (source.expression.root, .map source.expression.options) ↔
      ∀ name ∈ ["i18n", "format", "join", "context"], source.expression.hasOption name = false := by
  have hiff := Pipeline.apply_eq_self_iff Pipeline.disjoint_builtin source.expression
  refine Iff.trans ?_ hiff
  rw [callValues, ← options_apply_builtin, Prod.mk.injEq, Term.map.injEq]
  constructor
  · rintro ⟨hroot, hoptions⟩
    exact Expression.eq_of_root_options hroot hoptions
  · intro hsame
    rw [hsame]
    exact ⟨rfl, rfl⟩

/-- No call passes an option that sets a filter to work. -/
theorem find?_arguments_eq_none {name : String}
    (hname : name ∈ ["i18n", "format", "join", "context"]) :
    source.arguments.find? name = none := by
  rw [← options_apply_builtin]
  exact Pipeline.option?_apply_eq_none Pipeline.disjoint_builtin hname source.expression

/-- Any other option is passed by the call that has no more than this one. -/
theorem callValues_single {name : String} (hname : name ∉ ["i18n", "format", "join", "context"])
    (root value : Term) (here : Location) :
    callValues ⟨⟨root, [(name, value)]⟩, here⟩ = (root, .map [(name, value)]) := by
  refine (callValues_eq_iff ⟨⟨root, [(name, value)]⟩, here⟩).2 fun other hother => ?_
  have hne : other ≠ name := fun heq => hname (heq ▸ hother)
  rw [Expression.hasOption_eq, Expression.option?, Entries.find?_cons, if_neg hne]
  rfl

end Written

/-- The call of an act. -/
def Act.call? : Act → Option Written
  | .call source => some source
  | _ => none

/-- The name and the parameters that an act defines. -/
def Act.definition? : Act → Option (String × List String)
  | .definition name parameters => some (name, parameters)
  | _ => none

namespace Markup.Template

/-- The calls of a template. -/
def calls (registry : Registry) (template : Template) : List Written :=
  (template.acts registry).filterMap Act.call?

/-- The procedures that a template defines. -/
def definitions (registry : Registry) (template : Template) : List (String × List String) :=
  (template.acts registry).filterMap Act.definition?

end Markup.Template

namespace Command

/-- For each call, the values of the variables for the procedure and for the arguments. -/
def calls (commands : List Command) : List (Option Term × Option Term) :=
  (enclosed [] commands).filterMap fun (stack, command) =>
    match command with
    | .procedureCall template arguments =>
      some (valueOf? template stack, valueOf? arguments stack)
    | _ => none

/-- The procedures that are defined, with their parameters. -/
def definitions (commands : List Command) : List (String × List String) :=
  commands.filterMap fun
    | .procedureStart name parameters _ => some (name, parameters)
    | _ => none

end Command

/-- The values of a call, if one is shown. -/
def Shown.called? : Shown → Option (Option Term × Option Term)
  | .called procedure? arguments? => some (procedure?, arguments?)
  | _ => none

/-- The name and the parameters of a procedure, if one is shown. -/
def Shown.defined? : Shown → Option (String × List String)
  | .defined name parameters => some (name, parameters)
  | _ => none

namespace Command

theorem calls_eq (commands : List Command) :
    calls commands = (shown [] commands).filterMap Shown.called? := by
  rw [calls, shown, List.filterMap_filterMap]
  congr
  funext site
  obtain ⟨stack, command⟩ := site
  cases command <;> rfl

theorem definitions_eq (commands : List Command) :
    definitions commands = (shown [] commands).filterMap Shown.defined? := by
  rw [definitions, shown, List.filterMap_filterMap, ← map_snd_enclosed [] commands,
    List.filterMap_map, map_snd_enclosed]
  congr
  funext site
  obtain ⟨stack, command⟩ := site
  cases command <;> rfl

end Command

namespace Compiler

variable {options : Options} {compiler : Compiler} {bytes : List UInt8} {compilation : Compilation}

/-- Among the commands of a template, compiled with the filters of the language, are its calls and
its definitions. -/
theorem calls_compile (hcompiler : ofOptions options = .ok compiler)
    (hfilters : options.disabledFilters = [])
    (hcompile : compiler.compile bytes = .ok compilation) :
    ∃ template, Template.parse options.bufferSize bytes = .ok template ∧
      Command.calls compilation.commands =
        (template.calls .builtin).map (fun source =>
          (some source.callValues.1, some source.callValues.2)) ∧
      Command.definitions compilation.commands = template.definitions .builtin := by
  obtain ⟨template, htemplate, hshown⟩ := shown_compile hcompiler hcompile
  have hbuiltin : Pipeline.without options.disabledFilters = .builtin := by
    rw [hfilters]
    rfl
  rw [hbuiltin] at hshown
  -- Calls and definitions are among what the commands show, which is what the directives do.
  refine ⟨template, htemplate, ?_, ?_⟩
  · rw [Command.calls_eq, hshown, List.filterMap_map, Template.calls, List.map_filterMap]
    congr
    funext act
    cases act with
    | call source =>
      simp only [Function.comp, Act.shown, Shown.called?, Act.call?, Option.map_some,
        Written.callValues, ← Written.options_apply_builtin]
      rfl
    | _ => rfl
  · rw [Command.definitions_eq, hshown, List.filterMap_map, Template.definitions]
    congr
    funext act
    cases act <;> rfl

/-- The calls and the definitions of a template, compiled with the filters of the language. Each
call binds the procedure to what the filters leave of its root, and the arguments to the options
that no filter takes; these are the root itself and all options just if none of the options sets a
filter to work. Each definition has all options of its expression for parameters; a parameter with
the name of such an option is passed by no call, and any other one can be passed with any value. -/
theorem calls_pass_options (hcompiler : ofOptions options = .ok compiler)
    (hfilters : options.disabledFilters = [])
    (hcompile : compiler.compile bytes = .ok compilation) :
    ∃ template, Template.parse options.bufferSize bytes = .ok template ∧
      Command.calls compilation.commands =
        (template.calls .builtin).map (fun source =>
          (some source.callValues.1, some source.callValues.2)) ∧
      (∀ source ∈ template.calls .builtin,
        source.callValues = (source.expression.root, .map source.expression.options) ↔
          ∀ name ∈ ["i18n", "format", "join", "context"],
            source.expression.hasOption name = false) ∧
      Command.definitions compilation.commands = template.definitions .builtin ∧
      ∀ definition ∈ template.definitions .builtin, ∀ parameter ∈ definition.2,
        if parameter ∈ ["i18n", "format", "join", "context"] then
          ∀ source : Written, source.arguments.find? parameter = none
        else
          ∀ root value here, Written.callValues ⟨⟨root, [(parameter, value)]⟩, here⟩ =
            (root, .map [(parameter, value)]) := by
  obtain ⟨template, htemplate, hcalls, hdefinitions⟩ := calls_compile hcompiler hfilters hcompile
  refine ⟨template, htemplate, hcalls, fun source _ => source.callValues_eq_iff, hdefinitions,
    fun _ _ parameter _ => ?_⟩
  split
  · next htaken => exact fun source => source.find?_arguments_eq_none htaken
  · next hfree => exact Written.callValues_single hfree

/-- A definition with two parameters, and a call that passes one of them. -/
def callSource : List UInt8 :=
  ("<p data-sly-template.card='$\x7b@ title, format\x7d'>$\x7btitle\x7d</p>" ++
    "<p data-sly-call='$\x7bcard @ title=name\x7d'></p>").toUTF8.toList

/-- The call and the definition of `callSource`, one of whose parameters no call passes. -/
theorem calls_pass_options_card :
    ∃ compiler compilation template,
      ofOptions Options.default = .ok compiler ∧
      Options.default.disabledFilters = [] ∧
      compiler.compile callSource = .ok compilation ∧
      Template.parse Options.default.bufferSize callSource = .ok template ∧
      (template.calls .builtin).length = 1 ∧
      Command.calls compilation.commands =
        (template.calls .builtin).map (fun source =>
          (some source.callValues.1, some source.callValues.2)) ∧
      template.definitions .builtin = [("card", ["format", "title"])] ∧
      Command.definitions compilation.commands = template.definitions .builtin ∧
      ∀ source : Written, source.arguments.find? "format" = none := by
  have hcompiler : ofOptions Options.default = _ := ofOptions_default Options.default.bufferSize
  obtain ⟨template, htemplate, hread⟩ :
      ∃ template, Template.parse Options.default.bufferSize callSource = .ok template ∧
        ((template.calls .builtin).length == 1 &&
          template.definitions .builtin == [("card", ["format", "title"])]) = true :=
    exists_of_any (by decide +kernel)
  rw [Bool.and_eq_true, beq_iff_eq, beq_iff_eq] at hread
  obtain ⟨compilation, hcompile⟩ := exists_compile hcompiler htemplate
  obtain ⟨found, hfound, hcalls, -, hdefinitions, hparameters⟩ :=
    calls_pass_options hcompiler rfl hcompile
  obtain rfl := Except.ok.inj (hfound.symm.trans htemplate)
  have hformat := hparameters ("card", ["format", "title"]) (by rw [hread.2]; decide) "format"
    (by decide)
  rw [if_pos (by decide)] at hformat
  exact ⟨_, compilation, found, hcompiler, rfl, hcompile, hfound, hread.1, hcalls, hread.2,
    hdefinitions, hformat⟩

/-- A call with an option that sets a filter to work. -/
def formatCallSource : List UInt8 :=
  "<sly data-sly-call=\"$\x7bt @ format='x'\x7d\"></sly>".toUTF8.toList

/-- Whether a template consists of one call, of an expression with an option under `name`. -/
def isCallWith (name : String) (template : Template) : Bool :=
  match template.calls .builtin with
  | [source] => source.expression.hasOption name
  | _ => false

theorem exists_of_isCallWith {name : String} {template : Template}
    (h : isCallWith name template = true) :
    ∃ source, template.calls .builtin = [source] ∧ source.expression.hasOption name = true := by
  unfold isCallWith at h
  split at h
  · next source hsource => exact ⟨source, hsource, h⟩
  · cases h

/-- The call of `formatCallSource` does not bind its variables to the root of its expression and to
all options: `format` is taken by a filter. -/
theorem call_format_not_passed :
    ∃ compiler compilation template source,
      ofOptions Options.default = .ok compiler ∧
      compiler.compile formatCallSource = .ok compilation ∧
      Template.parse Options.default.bufferSize formatCallSource = .ok template ∧
      template.calls .builtin = [source] ∧ source.expression.hasOption "format" = true ∧
      Command.calls compilation.commands ≠
        [(some source.expression.root, some (.map source.expression.options))] := by
  have hcompiler : ofOptions Options.default = _ := ofOptions_default Options.default.bufferSize
  obtain ⟨template, htemplate, hread⟩ :
      ∃ template, Template.parse Options.default.bufferSize formatCallSource = .ok template ∧
        isCallWith "format" template = true :=
    exists_of_any (by decide +kernel)
  obtain ⟨source, hsource, hoption⟩ := exists_of_isCallWith hread
  obtain ⟨compilation, hcompile⟩ := exists_compile hcompiler htemplate
  obtain ⟨found, hfound, hcalls, -⟩ := calls_compile hcompiler rfl hcompile
  obtain rfl := Except.ok.inj (hfound.symm.trans htemplate)
  refine ⟨_, compilation, found, source, hcompiler, hcompile, hfound, hsource, hoption, ?_⟩
  intro hsame
  rw [hcalls, hsource, List.map_singleton, List.singleton_inj, Prod.mk.injEq, Option.some.injEq,
    Option.some.injEq] at hsame
  have hnone := source.callValues_eq_iff.1 (Prod.ext hsame.1 hsame.2) "format" (by decide)
  rw [hnone] at hoption
  cases hoption

end Compiler

end Stencil
