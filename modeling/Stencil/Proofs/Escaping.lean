import Stencil.Proofs.ActsShown
import Stencil.Proofs.Filters

/-!
# Escaping is complete

With the filter `context` in force, every value that compiled commands write is escaped: the
variable written is bound, in the blocks around it, to a call of the escaping function on the
author's expression, with the context that the author gave or else that of the position. Exceptions
are the calls of the runtime functions that give markup of their own.

## Main definitions

* `Expression.escaped`: the escaped value of an expression
* `Position.context`: the context that a position calls for
* `Act.output?`: the value that an act writes
* `Command.outputs`: the values that commands write, in order

## Main results

* `Written.root_filtered`: an expression with a placement is escaped
* `Compiler.outputs_escaped`: all that is written is escaped
-/

namespace Stencil

open Markup (Template)

namespace Expression

/-- The escaped value of an expression: what the other filters leave of the root, with the context
that the author wrote, or else the one that the position calls for. -/
def escaped (disabled : List String) (context : String) (e : Expression) : Term :=
  .call "xss" [((Pipeline.without ("context" :: disabled)).apply e).root,
    (e.option? "context").getD (.text context)]

variable (placement : Placement) (e : Expression)

theorem agreeOff_withContext :
    e.AgreeOff [Filter.contextOption] (Session.withContext (some placement) e) := by
  unfold Session.withContext
  simp only
  split
  · exact ⟨rfl, fun _ _ => rfl⟩
  · refine ⟨rfl, fun name hname => ?_⟩
    rw [option?_withOption, if_neg (by simpa using hname)]

theorem option?_withContext :
    (Session.withContext (some placement) e).option? Filter.contextOption =
      some ((e.option? Filter.contextOption).getD (.text placement.label)) := by
  unfold Session.withContext
  simp only
  cases hoption : e.option? Filter.contextOption with
  | some value => simp [hasOption_eq, hoption]
  | none => simp [hasOption_eq, hoption, option?_withOption]

end Expression

namespace Pipeline

/-- The filter `context` comes last. -/
theorem without_eq_append {disabled : List String} (h : Filter.contextOption ∉ disabled) :
    without disabled = without (Filter.contextOption :: disabled) ++ [.context] := by
  have hne : ∀ filter ∈ [Filter.i18n, .format, .join], filter.option ≠ Filter.contextOption := by
    decide
  have hothers : ∀ filter ∈ [Filter.i18n, .format, .join],
      (!disabled.contains filter.option) =
        !(Filter.contextOption :: disabled).contains filter.option := by
    intro filter hfilter
    simp [hne filter hfilter]
  have hcontext : [Filter.context].filter (fun filter => !disabled.contains filter.option) =
      [.context] := by
    simpa [Filter.context] using h
  have hsplit : builtin = [Filter.i18n, .format, .join] ++ [.context] := rfl
  rw [without, without, hsplit, List.filter_append, List.filter_append, hcontext,
    List.filter_congr hothers]
  simp [Filter.context]

/-- No other filter of the language owns the option `context`. -/
theorem contextOption_notMem_owned (disabled : List String) :
    Filter.contextOption ∉ (without (Filter.contextOption :: disabled)).owned := by
  intro howned
  obtain ⟨filter, hfilter, hmem⟩ := List.mem_flatMap.1 howned
  obtain ⟨hbuiltin, hleft⟩ := List.mem_filter.1 hfilter
  have honly : ∀ filter ∈ builtin, Filter.contextOption ∈ filter.owned →
      filter.option = Filter.contextOption := by decide
  simp [honly filter hbuiltin hmem] at hleft

end Pipeline

/-- The filter `context` escapes an expression that has a context. -/
theorem Filter.root_context_apply {e : Expression} {value : Term}
    (h : e.option? contextOption = some value) :
    (context.apply e).root = .call "xss" [e.root, value] := by
  have hoption : e.hasOption context.option = true := by
    rw [Expression.hasOption_eq]
    exact congrArg Option.isSome h
  rw [apply, if_pos hoption]
  simp [context, owned, Expression.withoutOptions, Expression.withRoot, h]

/-- The filters escape an expression that has a placement. -/
theorem Written.root_filtered {disabled : List String} (h : Filter.contextOption ∉ disabled)
    (source : Written) (placement : Placement) :
    (source.filtered (.without disabled) (some placement)).root =
      source.expression.escaped disabled placement.label := by
  have howned := Pipeline.contextOption_notMem_owned disabled
  have hcontext := Expression.option?_withContext placement source.expression
  rw [← Pipeline.option?_apply_of_notMem howned] at hcontext
  have hother : ∀ name ∈ (Pipeline.without (Filter.contextOption :: disabled)).owned,
      name ∉ [Filter.contextOption] := by
    intro name hname hcontext
    exact howned (List.mem_singleton.1 hcontext ▸ hname)
  have hagree := Pipeline.agreeOff_apply hother
    (Expression.agreeOff_withContext placement source.expression)
  -- The other filters do not look at the context, which the last one then puts in.
  rw [filtered, Pipeline.without_eq_append h, Pipeline.apply, List.foldl_append]
  exact (Filter.root_context_apply hcontext).trans (by rw [← hagree.root]; rfl)

/-! ### Values that are written -/

/-- The attributes that hold an address. -/
def addressAttributes : List String :=
  ["href", "src", "action", "formaction", "cite", "poster", "background", "data", "codebase",
    "manifest"]

/-- The context that a position calls for, where the author gives none. The names of attributes are
compared up to the case of ASCII letters. -/
def Position.context : Position → String
  | .content => "text"
  | .comment => "comment"
  | .attributeValue name =>
    if addressAttributes.any (Text.eqIgnoringAsciiCase · name) then "uri" else "attribute"

theorem Position.label_placement (position : Position) :
    position.placement.label = position.context := by
  cases position with
  | attributeValue name =>
    change (Placement.ofAttribute name).label =
      if Markup.isUriAttribute name then "uri" else "attribute"
    rw [Placement.ofAttribute, apply_ite Placement.label]
    rfl
  | _ => rfl

/-- The value that an act writes, where the filters in `disabled` are left out. -/
def Act.output? (disabled : List String) : Act → Option Term
  | .value source position => some (source.expression.escaped disabled position.context)
  | .tagName source tag =>
    let name := source.expression.escaped disabled "elementName"
    some (.choice name name (.text tag))
  | .inclusion source => some (source.insertion (.without disabled) "include")
  | .resource source => some (source.insertion (.without disabled) "resource")
  | .attributeMap source =>
    some (.call "attributeMap" [(source.filtered (.without disabled) none).root])
  | .call _ => none
  | .definition _ _ => none

/-- The value that is written, if one is. -/
def Shown.written? : Shown → Option (Option Term)
  | .written value? => some value?
  | _ => none

/-- Commands show the value that an act writes. -/
theorem Act.written?_shown {disabled : List String} (h : Filter.contextOption ∉ disabled)
    (act : Act) : (act.shown (.without disabled)).written? = (act.output? disabled).map some := by
  cases act with
  | value source position =>
    rw [output?, ← position.label_placement]
    exact congrArg (fun value => some (some value)) (source.root_filtered h position.placement)
  | tagName source tag =>
    exact congrArg (fun value => some (some (Term.choice value value (.text tag))))
      (source.root_filtered h .elementName)
  | _ => rfl

namespace Command

/-- The value of each variable that is written, in order. -/
def outputs (commands : List Command) : List (Option Term) :=
  (enclosed [] commands).filterMap fun (stack, command) =>
    match command with
    | .outVariable name => some (valueOf? name stack)
    | _ => none

theorem outputs_eq (commands : List Command) :
    outputs commands = (shown [] commands).filterMap Shown.written? := by
  rw [outputs, shown, List.filterMap_filterMap]
  congr
  funext site
  obtain ⟨stack, command⟩ := site
  cases command <;> rfl

end Command

namespace Compiler

variable {options : Options} {compiler : Compiler} {bytes : List UInt8} {compilation : Compilation}

/-- All that is written is escaped. Of the commands of a template, compiled with the filter
`context` in force, the values written are those of the acts of the template, one by one and in
order: escaped expressions, and calls of the functions that give markup. Each of the variables
written has as its innermost declaration a binding of just this name, to such a value. -/
theorem outputs_escaped (hcompiler : ofOptions options = .ok compiler)
    (hcontext : "context" ∉ options.disabledFilters)
    (hcompile : compiler.compile bytes = .ok compilation) :
    ∃ template, Template.parse options.bufferSize bytes = .ok template ∧
      Command.outputs compilation.commands =
        ((template.acts .builtin).filterMap (Act.output? options.disabledFilters)).map some ∧
      ∀ stack name, (stack, .outVariable name) ∈ Command.enclosed [] compilation.commands →
        ∃ act ∈ template.acts .builtin, ∃ value here,
          act.output? options.disabledFilters = some value ∧
            Command.innermost? name stack = some (.bindingStart name value here) := by
  obtain ⟨template, htemplate, hshown⟩ := shown_compile hcompiler hcompile
  have houtputs : Command.outputs compilation.commands =
      ((template.acts .builtin).filterMap (Act.output? options.disabledFilters)).map some := by
    rw [Command.outputs_eq, hshown, List.filterMap_map, List.map_filterMap]
    exact congrArg (List.filterMap · _) (funext fun act => act.written?_shown hcontext)
  refine ⟨template, htemplate, houtputs, fun stack name hsite => ?_⟩
  have hvalue : Command.valueOf? name stack ∈ Command.outputs compilation.commands :=
    List.mem_filterMap.2 ⟨_, hsite, rfl⟩
  rw [houtputs] at hvalue
  obtain ⟨value, hwritten, hvalue⟩ := List.mem_map.1 hvalue
  obtain ⟨act, hact, houtput⟩ := List.mem_filterMap.1 hwritten
  obtain ⟨here, hinnermost⟩ := Command.innermost?_of_valueOf? hvalue.symm
  exact ⟨act, hact, value, here, houtput, hinnermost⟩

/-- An address, another attribute, the name of a tag, two values in content, one of them with a
context of its own, and a comment. -/
def valuesSource : List UInt8 :=
  ("<a HREF='$\x7bx\x7d' title='$\x7bw\x7d' data-sly-element='$\x7bt\x7d'>" ++
    "$\x7bv\x7d$\x7by @ context='html'\x7d</a><!--$\x7bz\x7d-->").toUTF8.toList

/-- The values of `valuesSource` as they are written, with the name of the tag in both tags. -/
def escapedValues : List String :=
  ["(xss(t, 'elementName') ? xss(t, 'elementName') : 'a')", "xss(x, 'uri')", "xss(w, 'attribute')",
    "xss(v, 'text')", "xss(y, 'html')", "(xss(t, 'elementName') ? xss(t, 'elementName') : 'a')",
    "xss(z, 'comment')"]

/-- The values of `valuesSource` are escaped, also without the filter `i18n`. -/
theorem outputs_escaped_values :
    ∃ compiler compilation template,
      ofOptions { Options.default with disabledFilters := ["i18n"] } = .ok compiler ∧
      "context" ∉ ["i18n"] ∧
      compiler.compile valuesSource = .ok compilation ∧
      Template.parse Options.default.bufferSize valuesSource = .ok template ∧
      Command.outputs compilation.commands =
        ((template.acts .builtin).filterMap (Act.output? ["i18n"])).map some ∧
      (Command.outputs compilation.commands).map (·.map Term.render) =
        escapedValues.map some := by
  have hcompiler : ofOptions { Options.default with disabledFilters := ["i18n"] } = .ok
      ⟨{ Options.default with disabledFilters := ["i18n"] }, .without ["i18n"], .builtin⟩ := by rfl
  obtain ⟨template, htemplate, hvalues⟩ :
      ∃ template, Template.parse Options.default.bufferSize valuesSource = .ok template ∧
        ((((template.acts .builtin).filterMap (Act.output? ["i18n"])).map some).map
          (·.map Term.render) == escapedValues.map some) = true :=
    exists_of_any (by decide +kernel)
  obtain ⟨compilation, hcompile⟩ := exists_compile hcompiler htemplate
  obtain ⟨found, hfound, houtputs, -⟩ := outputs_escaped hcompiler (by decide) hcompile
  obtain rfl := Except.ok.inj (hfound.symm.trans htemplate)
  refine ⟨_, compilation, found, hcompiler, by decide, hcompile, hfound, houtputs, ?_⟩
  rw [houtputs]
  exact eq_of_beq hvalues

end Compiler

end Stencil
