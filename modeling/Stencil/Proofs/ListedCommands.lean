import Stencil.Proofs.Deliveries
import Stencil.Proofs.SingleLines
import Stencil.Proofs.Steps

/-!
# Listings of compiled templates

The commands that a template is compiled to are written on one line each: texts are quoted, values
are on one line, and names are made by the compiler or come from the names of attributes and
options. So the text of the listing has one line for each command. The blocks of these commands
match, so each line is indented by the blocks that are open around its command, and an end always
has a block to leave.

## Main definitions

* `Command.OneLine`: a command that is written on one line
* `Discipline.singleLines`: the rule that names and values are on one line

## Main results

* `Script.oneLine_commands`: the commands of a script with names and values on one line
* `Markup.Template.oneLine_draft`: the script of a template that is read
* `Compiler.list_compile`: the listing of a compilation
-/

namespace Stencil

open Text (OneLine)

/-! ### Commands -/

namespace Command

/-- A command that is written on one line. -/
def OneLine (command : Command) : Prop :=
  Text.OneLine command.render

instance : DecidablePred OneLine := fun command =>
  inferInstanceAs (Decidable (Text.OneLine command.render))

theorem oneLine_outText (text : String) : (outText text).OneLine :=
  .after (Text.oneLine_quoted text)

end Command

/-! ### Scripts -/

/-- Names and values are on one line. -/
def Discipline.singleLines : Discipline Empty where
  Name := OneLine
  Global := OneLine
  Variable _ := OneLine
  Value _ value _ := value.OneLine
  checked _ _ := ∅
  bound _ := ∅
  declared _ := ∅
  variable_mono _ h := h
  value_mono _ h := h

open Discipline

section Scripts

variable {known : Set Empty}

theorem Statement.oneLine_commands {x : Statement} (h : singleLines.Allows known x) :
    ∀ command ∈ x.commands, command.OneLine := by
  cases x with
  | bindGlobal name value here =>
    exact List.forall_mem_singleton.2 (h.1.after.append.append h.2)
  | outText text => exact List.forall_mem_singleton.2 (Command.oneLine_outText text)
  | outVariable name => exact List.forall_mem_singleton.2 (Text.OneLine.after h)
  | callProcedure template arguments =>
    exact List.forall_mem_singleton.2 (h.1.after.append.append h.2).append
  | _ => exact List.forall_mem_nil _

theorem Header.oneLine_start {header : Header} (h : singleLines.Opens known header) :
    ∀ command ∈ header.start?, command.OneLine := by
  cases header with
  | binding kind name value here =>
    rintro command ⟨rfl⟩
    exact h.1.after.append.append h.2
  | conditional name expected =>
    rintro command ⟨rfl⟩
    refine Text.OneLine.append ?_ h
    cases expected <;> decide
  | loop list item index here =>
    rintro command ⟨rfl⟩
    obtain ⟨hlist, hitem, hindex⟩ := h
    exact (hitem.after.append.append hindex).append.append hlist
  | procedure name parameters here =>
    rintro command ⟨rfl⟩
    exact (h.1.after.append.append (Text.oneLine_intercalate (by decide) h.2)).append
  | rawText => exact fun _ hcommand => by cases hcommand

theorem Header.oneLine_close (header : Header) : ∀ command ∈ header.close?, command.OneLine := by
  cases header with
  | rawText => exact fun _ hcommand => by cases hcommand
  | _ =>
    rintro command ⟨rfl⟩
    decide

/-- A script with names and values on one line writes commands on one line. -/
theorem Script.oneLine_commands {k : Script} (h : singleLines.Keeps known k) :
    ∀ command ∈ k.commands, command.OneLine := by
  induction k generalizing known with
  | done => exact List.forall_mem_nil _
  | statement x next ih =>
    exact List.forall_mem_append.2 ⟨Statement.oneLine_commands h.1, ih h.2⟩
  | block header body next hbody ih =>
    have hstart : ∀ command ∈ header.start?.toList, command.OneLine := fun command hcommand =>
      Header.oneLine_start h.1 command (Option.mem_toList.1 hcommand)
    have hclose : ∀ command ∈ header.close?.toList, command.OneLine := fun command hcommand =>
      header.oneLine_close command (Option.mem_toList.1 hcommand)
    simp only [Script.commands, List.forall_mem_append]
    exact ⟨⟨⟨hstart, hbody h.2.1⟩, hclose⟩, ih h.2.2⟩

end Scripts

/-! ### Templates -/

variable {filters : Pipeline}

theorem Session.oneLine_symbol (n : Nat) : OneLine (symbol n) :=
  .after (Text.oneLine_toString n)

/-- Neither the filters nor the walk put a line feed into an expression. -/
theorem Written.Makes.oneLine (hfilters : filters ⊆ .builtin) {source : Written}
    (h : source.expression.OneLine) {placement? : Option Placement} {value : Term}
    (hmakes : source.Makes filters placement? value) : value.OneLine := by
  obtain ⟨hroot, hoptions⟩ := source.oneLine_filtered hfilters h placement?
  have hmap := Term.oneLine_map hoptions
  cases hmakes with
  | root => exact hroot
  | options => exact hmap
  | handed hfunction =>
    have hname : ∀ function ∈ optionFunctions, OneLine function := by decide
    exact Term.oneLine_call (hname _ hfunction)
      (List.forall_mem_cons.2 ⟨hroot, List.forall_mem_singleton.2 hmap⟩)
  | attributes => exact Term.oneLine_call (by decide) (List.forall_mem_singleton.2 hroot)
  | choice tag => exact Term.oneLine_choice hroot hroot (Term.oneLine_text tag)

theorem Discipline.suits_singleLines (hfilters : filters ⊆ .builtin) :
    singleLines.Suits filters Expression.OneLine where
  expression h _ _ hmem := Fragment.oneLine_of_parse h hmem
  value h hmakes _ := hmakes.oneLine hfilters h
  status _ _ := Term.oneLine_call (by decide) (List.forall_mem_cons.2
    ⟨Term.oneLine_identifier (Session.oneLine_symbol _),
      List.forall_mem_singleton.2 (Term.oneLine_identifier (Session.oneLine_symbol _))⟩)
  variable_declared h _ := h
  variable_bound h _ := h
  symbol := Session.oneLine_symbol
  item := (by decide : OneLine "item")
  status_name h := h.append

namespace Markup

variable {registry : Registry}

/-- The names that a directive on one line gives. -/
theorem named_of_mem_occurrences {attributes : List Attribute}
    (h : ∀ attr ∈ attributes, attr.OneLine) {o : Occurrence}
    (ho : o ∈ occurrences registry attributes) : o.Named singleLines := by
  obtain ⟨attr, hattr, hvalue⟩ := List.mem_filterMap.1 ho
  split at hvalue
  · next call e hdirective =>
    obtain ⟨directive, -, rfl⟩ := Option.map_eq_some_iff.1 hvalue
    obtain ⟨harguments, hexpression⟩ := h attr hattr call e hdirective
    refine ⟨harguments, fun name hmem => ?_, fun name hmem => ?_⟩
    · obtain ⟨option, hoption, rfl⟩ := List.mem_map.1 hmem
      exact (hexpression.options option hoption).1
    · -- All are the argument, but for the name of what is used if there is none.
      obtain ⟨label, arguments⟩ := call
      cases arguments with
      | nil =>
        cases directive with
        | use => exact List.mem_singleton.1 hmem ▸ (by decide : OneLine "useBean")
        | _ => cases hmem
      | cons first rest =>
        have hfirst := harguments first List.mem_cons_self
        cases directive with
        | use | set | test => exact List.mem_singleton.1 hmem ▸ hfirst
        | _ => cases hmem
  · cases hvalue

/-- The script of a template that is read is on one line. -/
theorem Template.oneLine_draft (hfilters : filters ⊆ .builtin) (hregistry : registry.Unmarked)
    {size : Nat} {bytes : List UInt8} {template : Template}
    (h : parse size bytes = .ok template) :
    singleLines.Admits ∅ (template.draft filters registry) := by
  have hattributes := oneLine_of_parse h
  refine admits_draft (suits_singleLines hfilters) hregistry (fun tag htag => ⟨?_, ?_⟩) ∅
  · exact fun attr hattr call e hvalue => (hattributes tag htag attr hattr call e hvalue).2
  · exact fun o ho => named_of_mem_occurrences (hattributes tag htag) ho

end Markup

/-! ### Compilations -/

/-- Joining texts keeps commands on one line. -/
theorem Stream.oneLine_ofCommands {written : List Command}
    (h : ∀ command ∈ written, command.OneLine) :
    ∀ command ∈ (ofCommands written).commands, command.OneLine := by
  intro command hcommand
  cases htext : command.isText with
  | true =>
    cases command with
    | outText text => exact Command.oneLine_outText text
    | _ => cases htext
  | false =>
    have hmem : command ∈ Command.withoutTexts (ofCommands written).commands :=
      List.mem_filter.2 ⟨hcommand, by rw [htext]; rfl⟩
    rw [withoutTexts_ofCommands] at hmem
    exact h command (List.mem_filter.1 hmem).1

namespace Compiler

open Markup

variable {options : Options} {compiler : Compiler} {bytes : List UInt8} {compilation : Compilation}

/-- The commands of a compilation are on one line each, and close the blocks that they open. -/
theorem oneLine_of_compile (hcompiler : ofOptions options = .ok compiler)
    (hcompile : compiler.compile bytes = .ok compilation) :
    (∀ command ∈ compilation.commands, command.OneLine) ∧
      Command.blocksAfter [] compilation.commands = some [] := by
  obtain ⟨template, htemplate, hcommands, -⟩ := exists_of_compile hcompiler hcompile
  have hfilters : compiler.filters ⊆ .builtin := by
    rw [eq_of_ofOptions hcompiler]
    exact Pipeline.without_subset _
  have hscript : Discipline.singleLines.Keeps ∅ (compiler.script template) :=
    (Template.oneLine_draft hfilters (unmarked_of_ofOptions hcompiler) htemplate).script 0
  rw [hcommands]
  refine ⟨?_, blocksAfter_play_start compiler _⟩
  rw [commands_play_start]
  exact Stream.oneLine_ofCommands (Script.oneLine_commands hscript)

/-- The checks let all commands pass to the listing. -/
theorem list_checks (compiler : Compiler) {commands : List Command}
    (hclosed : Command.blocksAfter [] commands = some []) (report : Report) :
    (list commands compiler.checks report).failure? = none ∧
      (list commands compiler.checks report).output = Listing.ofCommands commands := by
  obtain ⟨-, hcollect, -⟩ := compiler.collect_checks hclosed report
  have hfailure : (list commands compiler.checks report).failure? = none :=
    (deliver_agree Listing.add (fun (_ : Unit) _ => ()) commands compiler.checks report .empty
      ()).2.1.trans hcollect
  exact ⟨hfailure, output_deliver Listing.add commands compiler.checks report .empty hfailure⟩

/-- **One line for each command.** The commands that a source is compiled to pass the checks, and
the text of their listing has as many lines as there are commands, each ended by a line feed. The
line of a command is two blanks for each block that is open around it, and then the command as it is
written, in which there is no line feed. If a command ends a block, its own is the innermost open
one and does not count, so that the indentation is never cut off at the margin. -/
theorem list_compile (hcompiler : ofOptions options = .ok compiler)
    (hcompile : compiler.compile bytes = .ok compilation) (report : Report) :
    let listed := list compilation.commands compiler.checks report
    listed.failure? = none ∧
      listed.output.text.toList.splitOn '\n' = listed.output.lines.map String.toList ++ [[]] ∧
      listed.output.lines.length = compilation.commands.length ∧
      ∀ i command, compilation.commands[i]? = some command →
        '\n' ∉ command.render.toList ∧
        ∃ around, Command.blocksAfter [] (compilation.commands.take i) =
            some (command.closes?.toList ++ around) ∧
          listed.output.lines[i]? =
            some ("".pushn ' ' (2 * around.length) ++ command.render) := by
  intro listed
  obtain ⟨honeLine, hclosed⟩ := oneLine_of_compile hcompiler hcompile
  obtain ⟨hfailure, houtput⟩ := compiler.list_checks hclosed report
  have hlines : ∀ i command, compilation.commands[i]? = some command →
      ∃ around, Command.blocksAfter [] (compilation.commands.take i) =
          some (command.closes?.toList ++ around) ∧
        listed.output.lines[i]? = some ("".pushn ' ' (2 * around.length) ++ command.render) := by
    intro i command hi
    obtain ⟨around, haround⟩ := Command.exists_around hclosed hi
    refine ⟨around, haround, ?_⟩
    rw [houtput, Listing.getElem?_lines_ofCommands hi, Listing.line_ofCommands,
      Command.length_around haround]
  have hlength : listed.output.lines.length = compilation.commands.length := by
    rw [houtput, Listing.length_lines_ofCommands]
  refine ⟨hfailure, Listing.splitOn_text ?_, hlength, fun i command hi =>
    ⟨honeLine command (List.mem_of_getElem? hi), hlines i command hi⟩⟩
  -- The text can be split into its lines since none of them holds a line feed.
  intro line hline
  obtain ⟨i, hi, rfl⟩ := List.getElem_of_mem hline
  have hcommand := List.getElem?_eq_getElem (hlength ▸ hi : i < compilation.commands.length)
  obtain ⟨around, -, hget⟩ := hlines i _ hcommand
  rw [(List.getElem?_eq_some_iff.1 hget).2]
  have hblanks : OneLine ("".pushn ' ' (2 * around.length)) := by
    rw [OneLine, Listing.toList_pushn, List.mem_append, List.mem_replicate]
    exact fun h => h.elim List.not_mem_nil fun h => absurd h.2 (by decide)
  exact hblanks.append (honeLine _ (List.mem_of_getElem? hcommand))

/-- Line feeds in a tag, in the value of an attribute, in text and in an expression. -/
def linesSource : List UInt8 :=
  ("<p\ntitle='a\nb' data-sly-list='$\x7bpages\x7d'>\n" ++
    "$\x7b'c\nd'\x7d</p>").toUTF8.toList

/-- The binding of the expression is on the seventh of fourteen lines, inside four blocks. -/
theorem list_compile_lines :
    ∃ compiler compilation command blocks,
      ofOptions Options.default = .ok compiler ∧ compiler.compile linesSource = .ok compilation ∧
      compilation.commands.length = 14 ∧ compilation.commands[6]? = some command ∧
      command.render = "let var_2 = xss('c\\nd', 'text')" ∧
      Command.blocksAfter [] (compilation.commands.take 6) = some blocks ∧ blocks.length = 4 ∧
      (list compilation.commands compiler.checks .empty).output.lines.length = 14 ∧
      (list compilation.commands compiler.checks .empty).output.lines[6]? =
        some ("".pushn ' ' 8 ++ command.render) := by
  have hcompiler : ofOptions Options.default = _ := ofOptions_default Options.default.bufferSize
  obtain ⟨compilation, hcompile, hchecks⟩ := exists_of_any (by decide +kernel :
    (compile ⟨Options.default, .without [], .builtin⟩ linesSource).toOption.any (fun c =>
      c.commands.length == 14 && c.commands[6]?.any fun command => command.closes?.isNone &&
        command.render == "let var_2 = xss('c\\nd', 'text')" &&
          (Command.blocksAfter [] (c.commands.take 6)).any (·.length == 4)) = true)
  simp only [Bool.and_eq_true, beq_iff_eq, Option.any_eq_true, Option.isNone_iff_eq_none] at hchecks
  obtain ⟨hlength, command, hcommand, ⟨hcloses, hrender⟩, blocks, hblocks, hdepth⟩ := hchecks
  obtain ⟨-, -, hlines, hall⟩ := list_compile hcompiler hcompile .empty
  obtain ⟨-, around, haround, hline⟩ := hall 6 command hcommand
  obtain rfl : blocks = around := by
    rw [hblocks, hcloses] at haround
    exact Option.some.inj haround
  rw [hdepth] at hline
  exact ⟨_, compilation, command, blocks, hcompiler, hcompile, hlength, hcommand, hrender, hblocks,
    hdepth, hlines.trans hlength, hline⟩

end Compiler

end Stencil
