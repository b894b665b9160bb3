import Stencil.Proofs.CheckedNames
import Stencil.Proofs.Operations

/-!
# Names that hide a global

The walk declares variables in blocks, variables in the rest of the document, and templates. A
session records all three; the check for hidden globals sees the commands, and these show only the
variables. So each variable under the name of a global is reported, and a template never is.

## Main definitions

* `Naming`: a name that is declared, how, and where
* `Step.namings`: the names that a step declares
* `Step.Records`: a session records what a step declares, and nothing else

## Main results

* `Script.records_steps`: along a script, what is declared is what is recorded
* `Compiler.shadows_eq`: which names are reported to hide a global
* `Compiler.template_unreported`: a template hides a global, and nothing is reported
-/

namespace Stencil

/-- How a name is declared. -/
inductive NameSort where
  /-- As a variable, in a block. -/
  | block
  /-- As a variable, in the rest of the document. -/
  | document
  /-- As a template. -/
  | template
  deriving DecidableEq

/-- A name that is declared. -/
structure Naming where
  sort : NameSort
  name : String
  location : Location

/-- The name in lower case, under which it is recorded. -/
def Naming.key (naming : Naming) : String :=
  Text.lower naming.name

/-- Whether a variable is declared under the name of a global. -/
def Naming.hides (globals : List String) (naming : Naming) : Bool :=
  naming.sort ≠ .template && (globals.map Text.lower).contains naming.key

/-- The names that a statement declares. -/
def Statement.namings : Statement → List Naming
  | .bindGlobal name _ here => [⟨.document, name, here⟩]
  | .declareGlobal name here => [⟨.template, name, here⟩]
  | _ => []

/-- The names that the beginning of a block declares. -/
def Header.namings : Header → List Naming
  | .binding _ name _ here => [⟨.block, name, here⟩]
  | .loop _ item index here => [⟨.block, item, here⟩, ⟨.block, index, here⟩]
  | .procedure _ parameters here => parameters.map (⟨.block, ·, here⟩)
  | _ => []

namespace Step

/-- The names that a step declares. -/
def namings : Step → List Naming
  | .statement x => x.namings
  | .enter header => header.namings
  | .leave _ => []

/-- The variables of blocks that a step declares. -/
def blockNames (step : Step) : List Naming :=
  step.namings.filter (·.sort = .block)

/-- The names that a step declares for the rest of the document or for all of it. -/
def documentNames (step : Step) : List Naming :=
  step.namings.filter (·.sort ≠ .block)

/-- The number of declarations that a step undoes. -/
def undone : Step → Nat
  | .leave header => header.namings.length
  | _ => 0

/-- A session records what a step declares and nothing else: the variables of blocks in its scope,
where the end of a block undoes the latest ones, and all others among the names of the document. -/
def Records (s : Session) (step : Step) : Prop :=
  ∃ t, step.run.run s = .ok () t ∧
    t.scope.order = (step.blockNames.map Naming.key).reverse ++ s.scope.order.drop step.undone ∧
    t.globals = step.documentNames.foldl
      (fun globals naming => globals.insert naming.key naming.location) s.globals

end Step

/-! ### What a session records -/

namespace Header

theorem sort_namings (header : Header) : ∀ naming ∈ header.namings, naming.sort = .block := by
  cases header <;> simp [namings]

theorem order_scopeInside (header : Header) (scope : Scope Declaration) :
    (header.scopeInside scope).order =
      (header.namings.map Naming.key).reverse ++ scope.order := by
  cases header with
  | procedure name parameters here =>
    rw [scopeInside, Session.order_declareParameters, namings, List.map_map]
    rfl
  | _ => rfl

end Header

theorem Step.blockNames_enter (header : Header) : (enter header).blockNames = header.namings :=
  List.filter_eq_self.2 fun naming hnaming => by simp [header.sort_namings naming hnaming]

theorem Step.documentNames_enter (header : Header) : (enter header).documentNames = [] :=
  List.filter_eq_nil_iff.2 fun naming hnaming => by simp [header.sort_namings naming hnaming]

theorem Statement.records (x : Statement) (s : Session) : Step.Records s (.statement x) := by
  refine ⟨x.run s, rfl, ?_, ?_⟩
  -- No statement touches the scope, and only two kinds of statements declare a name.
  · rw [(x.level_run s).scope]
    cases x <;> rfl
  · cases x with
    | check root here =>
      obtain ⟨reports, h⟩ := Session.exists_checkNames root here s
      rw [run, h]
      rfl
    | checkContext e here =>
      rw [run]
      split <;> rfl
    | declareGlobal name here => exact s.globals_declareGlobal name here
    | bindGlobal name value here => exact Session.globals_declareGlobal name here _
    | _ => rfl

theorem Header.records_enter (header : Header) (s : Session) : Step.Records s (.enter header) := by
  obtain ⟨reports, henter⟩ := header.exists_enter s
  refine ⟨header.enter s, rfl, ?_, ?_⟩
  · rw [henter, Step.blockNames_enter]
    exact header.order_scopeInside s.scope
  · rw [henter, Step.documentNames_enter]
    rfl

/-- Along a script a session records what the steps declare. -/
theorem Script.records_steps (k : Script) {s : Session} (hproper : s.scope.Proper) :
    Step.Along Step.Records k.steps s := by
  refine along_steps (fun s x => x.records s) (fun s header => header.records_enter s)
    (fun outer inner header houter hlevel => ?_) k hproper
  obtain ⟨reports, henter⟩ := header.exists_enter outer
  have hinner : inner.scope.order =
      (header.namings.map Naming.key).reverse ++ outer.scope.order := by
    rw [hlevel.scope, henter, header.order_scopeInside]
  -- The end of the block takes off the names that its beginning has put in front.
  refine ⟨_, header.run_leave houter hlevel, ?_, rfl⟩
  have hlength : ((header.namings.map Naming.key).reverse).length = header.namings.length := by
    simp
  rw [hinner, Step.undone, ← hlength, List.drop_left]
  rfl

/-! ### What the check for hidden globals sees -/

/-- Whether a finding is that a variable hides a global. -/
def Finding.isShadow : Finding → Bool
  | .shadows _ => true
  | _ => false

theorem Finding.ofUses_isShadow : Finding.OfUses isShadow where
  plain finding h := by
    cases finding with
    | shadows name => cases h
    | _ => rfl
  hides _ := rfl
  redeclares _ _ := rfl

theorem Statement.finding_of_mem_unresolved (x : Statement) {s : Session} {d : Diagnostic}
    (h : d ∈ x.unresolved s) : ∃ name, d.finding = .unresolved name := by
  cases x with
  | check root here =>
    rw [unresolved, Session.unresolvedIn] at h
    split at h
    · obtain ⟨name, -, rfl⟩ := List.mem_map.1 h
      exact ⟨name, rfl⟩
    · cases h
  | _ => cases h

/-- A script reports no hidden global. -/
theorem Script.reportsOf_play_isShadow {k : Script} {known : Set (String × Location)}
    (h : k.Settled known) (s : Session) :
    (k.play s).reportsOf Finding.isShadow = s.reportsOf Finding.isShadow := by
  induction k generalizing known s with
  | done => rfl
  | statement x next ih =>
    obtain ⟨-, hplain, hnext⟩ := h
    have hnone : (x.unresolved s).reverse.filter (fun d => d.finding.isShadow) = [] := by
      refine List.filter_eq_nil_iff.2 fun d hd => ?_
      obtain ⟨name, hname⟩ := x.finding_of_mem_unresolved (List.mem_reverse.1 hd)
      rw [hname]
      exact Bool.false_ne_true
    rw [play, ih hnext, Statement.reportsOf_run Finding.ofUses_isShadow hplain, hnone]
    rfl
  | block header body next hbody ih =>
    obtain ⟨-, hinside, hnext⟩ := h
    refine (ih hnext _).trans ?_
    exact (hbody hinside _).trans (header.reportsOf_enter Finding.ofUses_isShadow s)

/-- Of the names that a step declares, its commands show the variables, in blocks or in the rest of
the document. -/
theorem Step.declared_commands (step : Step) :
    step.commands.flatMap Command.declared =
      (step.namings.filter (·.sort ≠ .template)).map fun naming =>
        (naming.name, naming.location) := by
  cases step with
  | statement x => cases x <;> rfl
  | enter header =>
    have hall : header.namings.filter (·.sort ≠ .template) = header.namings :=
      List.filter_eq_self.2 fun naming hnaming => by simp [header.sort_namings naming hnaming]
    rw [namings, hall]
    cases header <;> simp [commands, Header.start?, Header.namings, Command.declared]
  | leave header => cases header <;> rfl

section ShadowReports

variable {globals : List String} {policy : ShadowPolicy} {severity : Severity}

/-- What is reported of commands is what is reported of the variables that they declare. -/
theorem Watcher.flatMap_shadowReports (hseverity : policy.severity? = some severity)
    (lowered : List String) (commands : List Command) :
    commands.flatMap (shadowReports lowered policy) =
      ((commands.flatMap Command.declared).filter fun named =>
        lowered.contains (Text.lower named.1)).map
          fun named => ⟨severity, named.2, .shadows named.1⟩ := by
  have hone : shadowReports lowered policy = fun command =>
      (command.declared.filter fun named => lowered.contains (Text.lower named.1)).map
        fun named => ⟨severity, named.2, .shadows named.1⟩ := by
    funext command
    rw [shadowReports, hseverity]
    rfl
  rw [hone, List.filter_flatMap, List.map_flatMap]

theorem Step.shadowReports_commands (hseverity : policy.severity? = some severity) (step : Step) :
    step.commands.flatMap (Watcher.shadowReports (globals.map Text.lower) policy) =
      (step.namings.filter (·.hides globals)).map
        fun naming => ⟨severity, naming.location, .shadows naming.name⟩ := by
  have hhides : step.namings.filter (·.hides globals) =
      (step.namings.filter (·.sort ≠ .template)).filter fun naming =>
        (globals.map Text.lower).contains naming.key := by
    rw [List.filter_filter]
    exact List.filter_congr fun naming _ => Bool.and_comm ..
  rw [Watcher.flatMap_shadowReports hseverity, step.declared_commands, hhides, List.filter_map,
    List.map_map]
  rfl

/-- A stream shows the same variables as what is written to it. -/
theorem Stream.flatMap_shadowReports (lowered : List String) (written : List Command) :
    (ofCommands written).commands.flatMap (Watcher.shadowReports lowered policy) =
      written.flatMap (Watcher.shadowReports lowered policy) := by
  have hkept (commands : List Command) :
      (Command.withoutTexts commands).flatMap (Watcher.shadowReports lowered policy) =
        commands.flatMap (Watcher.shadowReports lowered policy) := by
    induction commands with
    | nil => rfl
    | cons command rest ih =>
      cases command with
      | outText text =>
        -- Texts are merged in the stream, but they declare nothing.
        have hnone : Watcher.shadowReports lowered policy (.outText text) = [] := by
          cases policy <;> rfl
        rw [List.flatMap_cons, hnone]
        exact ih
      | _ => exact congrArg (_ ++ ·) ih
  rw [← hkept, withoutTexts_ofCommands, hkept]

/-- What is reported of the commands of steps is what is reported of the names that they declare. -/
theorem Step.shadowReports_flatMap (hseverity : policy.severity? = some severity)
    (steps : List Step) :
    (steps.flatMap commands).flatMap (Watcher.shadowReports (globals.map Text.lower) policy) =
      ((steps.flatMap namings).filter (·.hides globals)).map
        fun naming => ⟨severity, naming.location, .shadows naming.name⟩ := by
  rw [List.flatMap_assoc, List.filter_flatMap, List.map_flatMap]
  exact congrArg (steps.flatMap ·) (funext fun step => step.shadowReports_commands hseverity)

end ShadowReports

namespace Compiler

open Markup

variable {options : Options} {compiler : Compiler} {bytes : List UInt8} {compilation : Compilation}
  {severity : Severity}

/-- **Hidden globals.** The steps of the walk declare names, and the session records what they
declare and nothing else. Unless hidden globals are ignored, exactly the variables among these names
are reported that are, in lower case, the name of a global: in the order of their declarations, with
the severity of the policy and at the place of the declaration. The names of templates are not. -/
theorem shadows_eq (hcompiler : ofOptions options = .ok compiler)
    (hseverity : options.shadowPolicy.severity? = some severity)
    (hcompile : compiler.compile bytes = .ok compilation) :
    ∃ template session, Template.parse options.bufferSize bytes = .ok template ∧
      compiler.walk template = .ok session ∧
      (Step.runAll (compiler.steps template)).run (Session.start compiler.setup) =
        .ok () session ∧
      Step.Along Step.Records (compiler.steps template) (Session.start compiler.setup) ∧
      compilation.diagnostics.filter (·.finding.isShadow) =
        (((compiler.steps template).flatMap Step.namings).filter (·.hides options.globals)).map
          fun naming => ⟨severity, naming.location, .shadows naming.name⟩ := by
  obtain ⟨template, htemplate, hcommands, hdiagnostics⟩ := exists_of_compile hcompiler hcompile
  have hunmarked := unmarked_of_ofOptions hcompiler
  obtain ⟨session, hwalk, hrun⟩ := run_steps hunmarked template
  refine ⟨template, session, htemplate, hwalk, hrun, Script.records_steps _ Scope.proper_empty, ?_⟩
  -- The walk itself reports no hidden global, and the check reports nothing else.
  have hsession : ((compiler.script template).play
      (Session.start compiler.setup)).diagnostics.filter (·.finding.isShadow) = [] := by
    rw [Session.diagnostics, List.filter_reverse]
    have hsettled := settled_script hunmarked template
    exact congrArg List.reverse (Script.reportsOf_play_isShadow hsettled _)
  rw [hdiagnostics, List.filter_append, hsession, commands_play_start,
    Stream.flatMap_shadowReports, Script.commands_eq_flatMap_steps,
    Step.shadowReports_flatMap hseverity, List.nil_append]
  refine List.filter_eq_self.2 fun diagnostic hdiagnostic => ?_
  obtain ⟨naming, -, rfl⟩ := List.mem_map.1 hdiagnostic
  rfl

/-- A compiler to which a hidden global is an error. -/
def guardedCompiler : Compiler :=
  ⟨⟨8192, ["request", "page", "entry"], .error, false, []⟩, .without [], .builtin⟩

/-- A template under the name of a global, with a parameter and a loop that have such names too. -/
def requestSource : List UInt8 :=
  ("<i data-sly-template.request='$\x7b@ page\x7d'>" ++
    "<p data-sly-list.Entry='$\x7bpage\x7d'></p></i>").toUTF8.toList

/-- The parameter and the item of the loop are reported, the template is not. -/
theorem shadows_eq_request :
    ∃ compilation template, ofOptions guardedCompiler.options = .ok guardedCompiler ∧
      guardedCompiler.compile requestSource = .ok compilation ∧
      (compilation.diagnostics.filter (·.finding.isShadow)).map (·.finding) =
        [.shadows "page", .shadows "Entry"] ∧
      compilation.diagnostics.filter (·.finding.isShadow) =
        (((guardedCompiler.steps template).flatMap Step.namings).filter
          (·.hides guardedCompiler.options.globals)).map
            fun naming => ⟨.error, naming.location, .shadows naming.name⟩ := by
  have hcompiler : ofOptions guardedCompiler.options = .ok guardedCompiler := rfl
  obtain ⟨compilation, hcompile, hfindings⟩ := exists_of_any (by decide +kernel :
    (guardedCompiler.compile requestSource).toOption.any (fun c =>
      (c.diagnostics.filter (·.finding.isShadow)).map (·.finding) ==
        [.shadows "page", .shadows "Entry"]) = true)
  obtain ⟨template, -, -, -, -, -, hshadows⟩ := shadows_eq hcompiler rfl hcompile
  exact ⟨compilation, template, hcompiler, hcompile, eq_of_beq hfindings, hshadows⟩

/-- A template with the name of a global that is there by default. -/
def templateSource : List UInt8 :=
  "<sly data-sly-template.request='$\x7b@ title\x7d'>x</sly>".toUTF8.toList

/-- The compiler of the default options. -/
def defaultCompiler : Compiler :=
  ⟨.default, .without [], .builtin⟩

/-- By default a hidden global is a warning; but where a name is declared that is the name of a
global, and it is that of a template, nothing is reported. -/
theorem template_unreported :
    ∃ compilation template,
      Template.parse Options.default.bufferSize templateSource = .ok template ∧
      defaultCompiler.compile templateSource = .ok compilation ∧
      (∃ naming ∈ (defaultCompiler.steps template).flatMap Step.namings,
        (Options.default.globals.map Text.lower).contains naming.key = true) ∧
      Options.default.shadowPolicy.severity? = some .warning ∧ compilation.diagnostics = [] := by
  obtain ⟨template, htemplate, hnaming⟩ := exists_of_any (by decide +kernel :
    (Template.parse Options.default.bufferSize templateSource).toOption.any (fun template =>
      ((defaultCompiler.steps template).flatMap Step.namings).any fun naming =>
        (Options.default.globals.map Text.lower).contains naming.key) = true)
  obtain ⟨compilation, hcompile, hsilent⟩ := exists_of_any (by decide +kernel :
    (defaultCompiler.compile templateSource).toOption.any (fun c => c.diagnostics.isEmpty) = true)
  exact ⟨compilation, template, htemplate, hcompile, List.any_eq_true.1 hnaming, rfl,
    List.isEmpty_iff.1 hsilent⟩

end Compiler

end Stencil
