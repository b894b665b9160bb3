import Stencil.Proofs.DisciplinedWalk
import Stencil.Proofs.Steps

/-!
# Scripts that check what they bind

Before a script binds a value, it has checked the names in the value, at the place of the binding,
or it has declared them. So with strict names each of them resolves when the value is bound, or has
been reported there. A check stays good in the blocks that follow it and, once these have ended,
behind them.

The options that an expression hands on to the runtime are not checked: they are left out of what is
said here.

## Main definitions

* `Term.checkedNames`: the names of a bound value without those in options that are handed on
* `Script.Settled`: what a script binds has been checked or declared
* `Session.Knows`: each of certain names resolves or has been reported
* `Step.Informed`: of each value that a step binds this is so

## Main results

* `Script.informed_steps`: the steps of a settled script are informed
* `Script.settled_of_keeps`: settled scripts, as those that keep to a discipline
-/

namespace Stencil

/-- The value that a command binds, and where. -/
def Command.bound? : Command → Option (Term × Location)
  | .bindingStart _ value here => some (value, here)
  | .globalBinding _ value here => some (value, here)
  | _ => none

/-- The names of a bound value, without those in options that are handed on: to a template by a map
of its own, and to a runtime function behind its first argument. -/
def Term.checkedNames : Term → List String
  | .map _ => []
  | .call function [root, .map options] =>
    if optionFunctions.contains function then root.names
    else (Term.call function [root, .map options]).names
  | value => value.names

theorem Term.checkedNames_subset (value : Term) : value.checkedNames ⊆ value.names := by
  unfold checkedNames
  split
  · exact List.nil_subset _
  · next function root options =>
    split
    · rw [names, namesOfItems]
      exact List.subset_append_left _ _
    · exact List.Subset.refl _
  · exact List.Subset.refl _

/-! ### What is known of names -/

/-- Each name resolves, or has been reported at the place that stands with it. -/
def Session.Knows (s : Session) (known : Set (String × Location)) : Prop :=
  ∀ name place, (name, place) ∈ known →
    s.resolves name = true ∨ ⟨.warning, place, .unresolved name⟩ ∈ s.reports

namespace Session

variable {s t : Session} {known : Set (String × Location)}

/-- A name that resolves goes on to do so while the scope keeps what it declares. -/
theorem Precedes.resolves (h : s.Precedes t)
    (hscope : ∀ key, s.scope.declares key = true → t.scope.declares key = true) {name : String}
    (hname : s.resolves name = true) : t.resolves name = true := by
  simp only [Session.resolves, Bool.or_eq_true, h.setup] at hname ⊢
  exact hname.imp_left (Or.imp (hscope _) (h.globals _))

theorem Knows.of_precedes (hknows : s.Knows known) (h : s.Precedes t)
    (hscope : ∀ key, s.scope.declares key = true → t.scope.declares key = true) :
    t.Knows known := fun name place hname =>
  (hknows name place hname).imp (h.resolves hscope) h.mem_reports

theorem Knows.union {more : Set (String × Location)} (h : s.Knows known) (h' : s.Knows more) :
    s.Knows (known ∪ more) := fun name place hname => hname.elim (h name place) (h' name place)

theorem knows_empty (s : Session) : s.Knows ∅ := fun _ _ hname => hname.elim

/-- The reports of names of a term that do not resolve. -/
def unresolvedIn (s : Session) (root : Term) (here : Location) : List Diagnostic :=
  if s.setup.strict then
    (root.names.filter fun name => !s.resolves name).map (⟨.warning, here, .unresolved ·⟩)
  else []

theorem reports_checkNames (root : Term) (here : Location) (s : Session) :
    (s.checkNames root here).reports = (s.unresolvedIn root here).reverse ++ s.reports := by
  have hfold (names : List String) (s : Session) :
      (names.foldl (fun s name => s.report .warning here (.unresolved name)) s).reports =
        (names.map (⟨.warning, here, .unresolved ·⟩)).reverse ++ s.reports := by
    induction names generalizing s with
    | nil => rfl
    | cons name rest ih =>
      rw [List.foldl_cons, ih, List.map_cons, List.reverse_cons, List.append_assoc]
      rfl
  rw [checkNames, unresolvedIn]
  split
  · exact hfold _ s
  · rfl

end Session

/-! ### What statements and blocks settle -/

/-- The names that a statement checks, with the place of the check. -/
def Statement.settled : Statement → Set (String × Location)
  | .check root here => {x | x.1 ∈ root.names ∧ x.2 = here}
  | _ => ∅

/-- Inside a block the names in lower case that it declares resolve, at whatever place. -/
def Header.settled (header : Header) : Set (String × Location) :=
  {x | x.1 ∈ header.declaredNames ∧ Text.lower x.1 = x.1}

/-- After a strict check each name resolves or has been reported. -/
theorem Statement.knows_run (x : Statement) {s : Session} (hstrict : s.setup.strict = true) :
    (x.run s).Knows x.settled := by
  cases x with
  | check root here =>
    rintro name place ⟨hname, rfl⟩
    cases hresolves : s.resolves name with
    | true =>
      -- A check declares nothing and undoes nothing.
      left
      refine (precedes_run (.check root place) s).resolves (fun key hkey => ?_) hresolves
      rw [(level_run (.check root place) s).scope]
      exact hkey
    | false =>
      right
      change _ ∈ (s.checkNames root place).reports
      rw [Session.reports_checkNames, Session.unresolvedIn, if_pos hstrict]
      refine List.mem_append_left _ (List.mem_reverse.2 (List.mem_map_of_mem ?_))
      exact List.mem_filter.2 ⟨hname, by rw [hresolves]; rfl⟩
  | _ => exact Session.knows_empty _

theorem Scope.declares_push {α : Type} (scope : Scope α) (name key : String) (data : α) :
    (scope.push name data).declares key = true ↔
      Text.lower key = Text.lower name ∨ scope.declares key = true := by
  rw [declares, push, Entries.contains_insert, Bool.or_eq_true, decide_eq_true_iff]
  rfl

theorem Session.declares_declareParameters (parameters : List String) (here : Location)
    (scope : Scope Declaration) (key : String) :
    (declareParameters parameters here scope).declares key = true ↔
      Text.lower key ∈ parameters.map Text.lower ∨ scope.declares key = true := by
  induction parameters generalizing scope with
  | nil => simp [declareParameters]
  | cons name rest ih =>
    refine (ih (scope.push name ⟨.parameter, here⟩)).trans ?_
    rw [Scope.declares_push, List.map_cons, List.mem_cons, or_left_comm, or_assoc]

namespace Header

/-- The names that are declared inside a block: its own and those from outside. -/
theorem declares_scopeInside (header : Header) (scope : Scope Declaration) (key : String) :
    (header.scopeInside scope).declares key = true ↔
      Text.lower key ∈ header.declaredNames.map Text.lower ∨ scope.declares key = true := by
  cases header with
  | binding kind name value here =>
    rw [scopeInside, Scope.declares_push]
    simp [declaredNames, start?, Command.declaredNames, Command.declared]
  | loop list item index here =>
    rw [scopeInside, Scope.declares_push, Scope.declares_push]
    simp [declaredNames, start?, Command.declaredNames, Command.declared, or_assoc, or_left_comm]
  | procedure name parameters here =>
    rw [scopeInside, Session.declares_declareParameters]
    simp [declaredNames, start?, Command.declaredNames, Command.declared]
  | conditional name expected =>
    simp [scopeInside, declaredNames, start?, Command.declaredNames, Command.declared]
  | rawText => simp [scopeInside, declaredNames, start?]

variable {header : Header} {s : Session} {known : Set (String × Location)}

/-- Inside a block its names are known, and all that was known before. -/
theorem knows_enter (hknows : s.Knows known) : (header.enter s).Knows (known ∪ header.settled) := by
  obtain ⟨reports, henter⟩ := header.exists_enter s
  have hscope : (header.enter s).scope = header.scopeInside s.scope := by rw [henter]
  refine .union (hknows.of_precedes (header.precedes_enter s) fun key hkey => ?_) ?_
  · rw [hscope, declares_scopeInside]
    exact .inr hkey
  · rintro name place ⟨hname, hlower⟩
    left
    have hdeclares : (header.enter s).scope.declares (Text.lower name) = true := by
      rw [hscope, declares_scopeInside, hlower]
      exact .inl (List.mem_map_of_mem hname)
    rw [Session.resolves, hdeclares]
    rfl

/-- Behind a block all is known that was known before it. -/
theorem knows_exit (hknows : s.Knows known) (body : Script) :
    (header.exit s (body.play (header.enter s))).Knows known :=
  hknows.of_precedes (((header.precedes_enter s).trans (body.precedes_play _)).trans
    (header.precedes_exit s _)) fun _ hkey => hkey

end Header

/-! ### Settled scripts -/

/-- What a command binds is known, but for what is never checked. -/
def Command.Covered (known : Set (String × Location)) (command : Command) : Prop :=
  ∀ value here, command.bound? = some (value, here) →
    ∀ name ∈ value.checkedNames, (name, here) ∈ known

/-- A statement that reports something of a name only where it checks or declares it. -/
def Statement.Plain : Statement → Prop
  | .report _ _ finding => finding.isOfName = false
  | _ => True

namespace Script

/-- What a script binds has been checked or declared before, by the script if it is not in `known`,
and it reports something of a name only where it checks or declares it. -/
def Settled (known : Set (String × Location)) : Script → Prop
  | .done => True
  | .statement x next =>
    (∀ command ∈ x.commands, command.Covered known) ∧ x.Plain ∧ next.Settled (known ∪ x.settled)
  | .block header body next =>
    -- What is settled inside a block does not count behind it, where its names are gone.
    (∀ command ∈ header.start?, command.Covered known) ∧ body.Settled (known ∪ header.settled) ∧
      next.Settled known

end Script

/-- Values are bound where their names have been checked or declared. -/
def Discipline.settling : Discipline (String × Location) where
  Name _ := True
  Global _ := True
  Variable _ _ := True
  Value known value here := ∀ name ∈ value.checkedNames, (name, here) ∈ known
  checked root here := (Statement.check root here).settled
  bound _ := ∅
  declared name := {x | x.1 = name ∧ Text.lower x.1 = x.1}
  variable_mono _ h := h
  value_mono hsub h name hname := hsub (h name hname)

open Discipline

section Keeps

variable {known : Set (String × Location)}

theorem Command.covered_of_bound? {command : Command} {value : Term} {here : Location}
    (hbound : command.bound? = some (value, here)) (h : settling.Value known value here) :
    command.Covered known := by
  intro other place hother
  obtain ⟨rfl, rfl⟩ := Prod.mk.inj (Option.some.inj (hbound.symm.trans hother))
  exact h

theorem Command.covered_of_none {command : Command} (hnone : command.bound? = none) :
    command.Covered known := by
  intro value here hbound
  rw [hnone] at hbound
  cases hbound

theorem Statement.covered_of_allows {x : Statement} (h : settling.Allows known x) :
    (∀ command ∈ x.commands, command.Covered known) ∧ x.Plain := by
  cases x with
  | bindGlobal name value here =>
    exact ⟨List.forall_mem_singleton.2 (Command.covered_of_bound? rfl h.2), trivial⟩
  | report severity here finding => exact ⟨List.forall_mem_nil _, h⟩
  | outText | outVariable | callProcedure =>
    exact ⟨List.forall_mem_singleton.2 (Command.covered_of_none rfl), trivial⟩
  | _ => exact ⟨List.forall_mem_nil _, trivial⟩

theorem Header.covered_of_opens {header : Header} (h : settling.Opens known header) :
    ∀ command ∈ header.start?, command.Covered known := by
  cases header with
  | binding kind name value here =>
    rintro command ⟨rfl⟩
    exact Command.covered_of_bound? rfl h.2
  | rawText => exact fun _ hcommand => by cases hcommand
  | _ =>
    rintro command ⟨rfl⟩
    exact Command.covered_of_none rfl

theorem Discipline.after_settling (x : Statement) : settling.after x = x.settled := by
  cases x <;> rfl

theorem Discipline.inside_settling (header : Header) : settling.inside header = header.settled := by
  refine Set.ext fun x => ⟨?_, fun h => ⟨x.1, h.1, rfl, h.2⟩⟩
  rintro ⟨name, hname, rfl, hlower⟩
  exact ⟨hname, hlower⟩

theorem Script.settled_of_keeps {k : Script} (h : settling.Keeps known k) : k.Settled known := by
  induction k generalizing known with
  | done => trivial
  | statement x next ih =>
    obtain ⟨hcovered, hplain⟩ := Statement.covered_of_allows h.1
    exact ⟨hcovered, hplain, ih (after_settling x ▸ h.2)⟩
  | block header body next hbody ih =>
    exact ⟨Header.covered_of_opens h.1, hbody (inside_settling header ▸ h.2.1), ih h.2.2⟩

end Keeps

/-- Each name that is checked in a value that a step binds resolves, or has been reported at the
place of the binding. -/
def Step.Informed (s : Session) (step : Step) : Prop :=
  ∀ command ∈ step.commands, ∀ value here, command.bound? = some (value, here) →
    ∀ name ∈ value.checkedNames,
      s.resolves name = true ∨ ⟨.warning, here, .unresolved name⟩ ∈ s.reports

/-- The end of a block binds nothing. -/
theorem Step.informed_leave (s : Session) (header : Header) : Informed s (.leave header) := by
  intro command hcommand value here hbound
  have hnone : ∀ command ∈ header.close?.toList, command.bound? = none := by
    cases header <;> simp [Header.close?, Command.bound?]
  rw [hnone command hcommand] at hbound
  cases hbound

theorem Session.Knows.covered {s : Session} {known : Set (String × Location)} {command : Command}
    (hknows : s.Knows known) (hcovered : command.Covered known) {value : Term} {here : Location}
    (hbound : command.bound? = some (value, here)) :
    ∀ name ∈ value.checkedNames,
      s.resolves name = true ∨ ⟨.warning, here, .unresolved name⟩ ∈ s.reports :=
  fun name hname => hknows name here (hcovered value here hbound name hname)

/-- With strict names the steps of a settled script are informed. -/
theorem Script.informed_steps {known : Set (String × Location)} {s : Session} {k : Script}
    (h : k.Settled known) (hstrict : s.setup.strict = true) (hproper : s.scope.Proper)
    (hknows : s.Knows known) : Step.Along Step.Informed k.steps s := by
  -- The invariant is that the session knows what the script takes for known.
  induction k generalizing known s with
  | done => trivial
  | statement x next ih =>
    obtain ⟨hcommands, -, hnext⟩ := h
    have hlevel := x.level_run s
    have hkept : (x.run s).Knows known :=
      hknows.of_precedes (x.precedes_run s) fun key hkey => hlevel.scope ▸ hkey
    refine along_statement (fun command hcommand value here hbound =>
      hknows.covered (hcommands command hcommand) hbound) ?_
    exact ih hnext (hlevel.setup ▸ hstrict) (hlevel.scope ▸ hproper)
      (hkept.union (x.knows_run hstrict))
  | block header body next hbody ih =>
    obtain ⟨hcommands, hinside, hnext⟩ := h
    have hsetup := header.setup_enter s
    refine along_block hproper (fun command hcommand value here hbound =>
      hknows.covered (hcommands command (Option.mem_toList.1 hcommand)) hbound) ?_
      (Step.informed_leave _ header) ?_
    · exact hbody hinside (hsetup ▸ hstrict) (header.proper_enter hproper)
        (Header.knows_enter hknows)
    · refine ih hnext ?_ hproper (Header.knows_exit hknows body)
      exact ((body.level_play _).setup.trans hsetup) ▸ hstrict

/-! ### What is reported of names -/

/-- A property of findings that a declaration does not have, nor what is reported of something other
than a name. -/
structure Finding.OfUses (p : Finding → Bool) : Prop where
  plain : ∀ finding, finding.isOfName = false → p finding = false
  hides : ∀ name, p (.hides name) = false
  redeclares : ∀ name previous, p (.redeclares name previous) = false

namespace Session

variable {p : Finding → Bool}

/-- The reports of a session with a property of findings, the latest first. -/
def reportsOf (p : Finding → Bool) (s : Session) : List Diagnostic :=
  s.reports.filter fun diagnostic => p diagnostic.finding

theorem reportsOf_report {finding : Finding} (h : p finding = false) (severity : Severity)
    (here : Location) (s : Session) :
    (s.report severity here finding).reportsOf p = s.reportsOf p :=
  List.filter_cons_of_neg (by simp [h])

theorem reportsOf_declare (hp : Finding.OfUses p) (name : String) (kind : DeclarationKind)
    (here : Location) (s : Session) : (s.declare name kind here).reportsOf p = s.reportsOf p := by
  rw [declare]
  split
  · exact reportsOf_report (hp.hides name) _ _ _
  · rfl

theorem reportsOf_declareGlobal (hp : Finding.OfUses p) (name : String) (here : Location)
    (s : Session) : (s.declareGlobal name here).reportsOf p = s.reportsOf p := by
  rw [declareGlobal]
  split
  · exact reportsOf_report (hp.redeclares name _) _ _ _
  · rfl

theorem reportsOf_foldl_declare (hp : Finding.OfUses p) (names : List String)
    (kind : DeclarationKind) (here : Location) (s : Session) :
    (names.foldl (fun s name => s.declare name kind here) s).reportsOf p = s.reportsOf p := by
  induction names generalizing s with
  | nil => rfl
  | cons name rest ih => exact (ih _).trans (reportsOf_declare hp name kind here s)

theorem reportsOf_checkNames (root : Term) (here : Location) (s : Session) :
    (s.checkNames root here).reportsOf p =
      (s.unresolvedIn root here).reverse.filter (fun diagnostic => p diagnostic.finding) ++
        s.reportsOf p := by
  rw [reportsOf, reports_checkNames, List.filter_append]
  rfl

end Session

namespace Statement

/-- What a statement reports of names that do not resolve. -/
def unresolved : Statement → Session → List Diagnostic
  | .check root here, s => s.unresolvedIn root here
  | _, _ => []

/-- Of findings that come neither from declarations nor from elsewhere, a statement adds only those
of its check. -/
theorem reportsOf_run {p : Finding → Bool} (hp : Finding.OfUses p) {x : Statement}
    (hplain : x.Plain) (s : Session) :
    (x.run s).reportsOf p =
      (x.unresolved s).reverse.filter (fun diagnostic => p diagnostic.finding) ++
        s.reportsOf p := by
  cases x with
  | check root here => exact Session.reportsOf_checkNames root here s
  | report severity here finding => exact Session.reportsOf_report (hp.plain _ hplain) _ _ _
  | checkContext e here =>
    rw [run]
    split
    · exact Session.reportsOf_report (hp.plain _ rfl) _ _ _
    · rfl
  | declareGlobal name here => exact Session.reportsOf_declareGlobal hp name here s
  | bindGlobal name value here => exact Session.reportsOf_declareGlobal hp name here _
  | _ => rfl

end Statement

theorem Header.reportsOf_enter {p : Finding → Bool} (hp : Finding.OfUses p) (header : Header)
    (s : Session) : (header.enter s).reportsOf p = s.reportsOf p := by
  cases header with
  | binding kind name value here => exact Session.reportsOf_declare hp name kind here _
  | loop list item index here =>
    exact (Session.reportsOf_declare hp index _ here _).trans
      (Session.reportsOf_declare hp item _ here _)
  | procedure name parameters here => exact Session.reportsOf_foldl_declare hp parameters _ here s
  | _ => rfl

end Stencil
