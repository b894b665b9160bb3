import Stencil.Proofs.Draft
import Stencil.Proofs.ReadTerms

/-!
# References to variables

A command refers to the variables that it tests, repeats over, writes or calls, and to those whose
status it asks for. A reference is resolved if a block that is open around the command declares the
variable, or a command before it that binds for the rest of the document.

Authors cannot ask for a status: no expression that is read does so, and no filter makes one do so.

## Main definitions

* `Term.statusNames`: the variables in calls that ask for the status of a loop
* `Command.references`: the variables that a command refers to
* `Command.Declared`: a variable is declared after commands
* `Command.Resolved`: all references of commands are resolved

## Main results

* `Written.statusFree_filtered`: filters make no expression ask for a status
* `Command.resolved_iff`: resolved references, seen from each command
-/

namespace Stencil

namespace Term

/-! ### Terms that ask for a status -/

mutual

/-- The names in the calls of `listStatus` in a term. -/
def statusNames : Term → List String
  | .property target key => statusNames target ++ statusNames key
  | .array items => statusNamesOfItems items
  | .map entries => statusNamesOfEntries entries
  | .unary _ operand => statusNames operand
  | .binary _ left right => statusNames left ++ statusNames right
  | .choice condition yes no => statusNames condition ++ statusNames yes ++ statusNames no
  | .call function arguments =>
    if function = "listStatus" then namesOfItems arguments else statusNamesOfItems arguments
  | .null => []
  | .text _ => []
  | .number _ => []
  | .boolean _ => []
  | .identifier _ => []

/-- The names in the calls of `listStatus` in terms. -/
def statusNamesOfItems : List Term → List String
  | [] => []
  | item :: rest => statusNames item ++ statusNamesOfItems rest

/-- The names in the calls of `listStatus` in the values of entries. -/
def statusNamesOfEntries : List (String × Term) → List String
  | [] => []
  | (_, value) :: rest => statusNames value ++ statusNamesOfEntries rest

end

/-- No status is asked for. -/
def StatusFree (t : Term) : Prop :=
  t.statusNames = []

theorem statusNamesOfItems_eq_nil {items : List Term} (h : ∀ item ∈ items, item.StatusFree) :
    statusNamesOfItems items = [] := by
  induction items with
  | nil => rfl
  | cons item rest ih =>
    obtain ⟨hitem, hrest⟩ := List.forall_mem_cons.1 h
    rw [statusNamesOfItems, hitem, ih hrest, List.append_nil]

theorem statusFree_map {entries : List (String × Term)}
    (h : ∀ entry ∈ entries, entry.2.StatusFree) : StatusFree (.map entries) := by
  rw [StatusFree, statusNames]
  induction entries with
  | nil => rfl
  | cons entry rest ih =>
    obtain ⟨hentry, hrest⟩ := List.forall_mem_cons.1 h
    rw [statusNamesOfEntries, hentry, ih hrest, List.append_nil]

/-- The call of any other function asks for what its arguments ask for. -/
theorem statusFree_call {function : String} (hfunction : function ≠ "listStatus")
    {arguments : List Term} (h : ∀ argument ∈ arguments, argument.StatusFree) :
    StatusFree (.call function arguments) := by
  rw [StatusFree, statusNames, if_neg hfunction]
  exact statusNamesOfItems_eq_nil h

theorem statusFree_choice {condition yes no : Term} (hcondition : condition.StatusFree)
    (hyes : yes.StatusFree) (hno : no.StatusFree) : StatusFree (.choice condition yes no) := by
  rw [StatusFree, statusNames, hcondition, hyes, hno]
  rfl

/-- No form of the grammar asks for a status. -/
theorem inherited_statusFree : Inherited StatusFree where
  null := rfl
  text _ := rfl
  number _ := rfl
  boolean _ := rfl
  identifier _ := rfl
  property htarget hkey := by rw [StatusFree, statusNames, htarget, hkey]; rfl
  array hitems := by rw [StatusFree, statusNames, statusNamesOfItems_eq_nil hitems]
  negation hoperand := by rw [StatusFree, statusNames, hoperand]
  binary hleft hright := by rw [StatusFree, statusNames, hleft, hright]; rfl
  choice := statusFree_choice

end Term

/-! ### Filters -/

/-- A property of terms that goes over to the calls of runtime functions that filters make. -/
structure Term.Filterable (P : Term → Prop) : Prop where
  null : P .null
  text : ∀ value, P (.text value)
  map : ∀ {entries : List (String × Term)}, (∀ entry ∈ entries, P entry.2) → P (.map entries)
  call : ∀ {function : String} {arguments : List Term}, function ≠ "listStatus" →
    (∀ argument ∈ arguments, P argument) → P (.call function arguments)

theorem Term.filterable_statusFree : Filterable StatusFree where
  null := rfl
  text _ := rfl
  map := statusFree_map
  call hfunction := statusFree_call hfunction

variable {P : Term → Prop}

namespace Filter

variable {root : Term} {values : List (Option Term)}

theorem forall_arguments (hP : Term.Filterable P) (hroot : P root)
    (hvalues : ∀ value, some value ∈ values → P value) :
    ∀ argument ∈ root :: values.map (·.getD .null), P argument := by
  refine List.forall_mem_cons.2 ⟨hroot, fun argument hargument => ?_⟩
  obtain ⟨value?, hvalue, rfl⟩ := List.mem_map.1 hargument
  cases value? with
  | none => exact hP.null
  | some value => exact hvalues value hvalue

theorem of_present (hP : Term.Filterable P) {names : List String}
    (hvalues : ∀ value, some value ∈ values → P value) : P (.map (present names values)) := by
  refine hP.map fun entry hentry => ?_
  obtain ⟨⟨name, value?⟩, hzip, hentry⟩ :=
    List.mem_filterMap.1 (Entries.mem_of_mem_ofList hentry)
  obtain ⟨value, rfl, rfl⟩ := Option.map_eq_some_iff.1 hentry
  exact hvalues value (List.of_mem_zip hzip).2

/-- The filters of the language call runtime functions, none of which gives a status. -/
theorem of_replacement (hP : Term.Filterable P) {filter : Filter}
    (hfilter : filter ∈ Pipeline.builtin) (hroot : P root)
    (hvalues : ∀ value, some value ∈ values → P value) : P (filter.replacement root values) := by
  have harguments := forall_arguments hP hroot hvalues
  simp only [Pipeline.builtin, List.mem_cons, List.not_mem_nil, or_false] at hfilter
  rcases hfilter with rfl | rfl | rfl | rfl
  · have hmap : P (.map (present ["locale", "hint"] values.tail)) :=
      of_present hP fun value hvalue => hvalues value (List.mem_of_mem_tail hvalue)
    exact hP.call (by decide) (List.forall_mem_cons.2 ⟨hroot, List.forall_mem_singleton.2 hmap⟩)
  · exact hP.call (by decide) harguments
  · exact hP.call (by decide) harguments
  · exact hP.call (by decide) harguments

theorem forall_apply (hP : Term.Filterable P) {filter : Filter}
    (hfilter : filter ∈ Pipeline.builtin) {e : Expression} (h : e.Forall P) :
    (filter.apply e).Forall P := by
  unfold apply
  split
  · refine ⟨of_replacement hP hfilter h.1 fun value hvalue => ?_, fun option hoption => ?_⟩
    · obtain ⟨name, -, hfound⟩ := List.mem_map.1 hvalue
      exact h.2 _ (Entries.mem_of_find?_eq_some hfound)
    · exact h.2 option (List.mem_filter.1 hoption).1
  · exact h

end Filter

theorem Pipeline.forall_apply (hP : Term.Filterable P) {filters : Pipeline}
    (hfilters : filters ⊆ builtin) {e : Expression} (h : e.Forall P) :
    (filters.apply e).Forall P := by
  induction filters generalizing e with
  | nil => exact h
  | cons filter rest ih =>
    obtain ⟨hfilter, hrest⟩ := List.cons_subset.1 hfilters
    exact ih hrest (Filter.forall_apply hP hfilter h)

/-- What holds of an expression and goes over to the calls that filters make holds of what its
position and the filters leave of it. -/
theorem Written.forall_filtered (hP : Term.Filterable P) {filters : Pipeline}
    (hfilters : filters ⊆ .builtin) {source : Written} (h : source.expression.Forall P)
    (placement? : Option Placement) : (source.filtered filters placement?).Forall P := by
  refine Pipeline.forall_apply hP hfilters ?_
  unfold Session.withContext
  split
  · split
    · exact h
    · refine ⟨h.1, fun option hoption => ?_⟩
      rcases Entries.mem_insert hoption with rfl | hoption
      · exact hP.text _
      · exact h.2 option hoption
  · exact h

/-- Neither the position nor the filters make an expression ask for a status. -/
theorem Written.statusFree_filtered {filters : Pipeline} (hfilters : filters ⊆ .builtin)
    {source : Written} (h : source.expression.Forall Term.StatusFree)
    (placement? : Option Placement) :
    (source.filtered filters placement?).Forall Term.StatusFree :=
  forall_filtered Term.filterable_statusFree hfilters h placement?

theorem Pipeline.without_subset (disabled : List String) : without disabled ⊆ builtin :=
  fun _ hfilter => (List.mem_filter.1 hfilter).1

/-! ### References of commands -/

namespace Command

/-- The variables that a command refers to. -/
def references : Command → List String
  | .bindingStart _ value _ => value.statusNames
  | .globalBinding _ value _ => value.statusNames
  | .conditionalStart name _ => [name]
  | .loopStart list _ _ _ => [list]
  | .outVariable name => [name]
  | .procedureCall template arguments => [template, arguments]
  | _ => []

/-- The names of the variables that a command declares. -/
def declaredNames (command : Command) : List String :=
  command.declared.map (·.1)

/-- The variable that a command binds in the rest of the document. -/
def global? : Command → Option String
  | .globalBinding name _ _ => some name
  | _ => none

/-- A variable is declared after commands: by a block that is open, or for the rest of the
document. -/
def Declared (before : List Command) (name : String) : Prop :=
  (∃ opener ∈ opened before, name ∈ opener.declaredNames) ∨ name ∈ before.filterMap global?

/-- All references of commands are resolved, where the blocks of `stack` are open and `globals` are
bound in the rest of the document. -/
def Resolved : List Command → List String → List Command → Prop
  | _, _, [] => True
  | stack, globals, command :: rest =>
    (∀ name ∈ command.references,
      (∃ opener ∈ stack, name ∈ opener.declaredNames) ∨ name ∈ globals) ∧
      Resolved (track stack command) (globals ++ command.global?.toList) rest

variable {stack : List Command} {globals : List String}

/-- A command that refers to nothing. -/
theorem resolved_singleton {command : Command} (h : command.references = []) :
    Resolved stack globals [command] := by
  refine ⟨fun name hname => ?_, trivial⟩
  rw [h] at hname
  cases hname

theorem resolved_append (first second : List Command) :
    Resolved stack globals (first ++ second) ↔
      Resolved stack globals first ∧
        Resolved (first.foldl track stack) (globals ++ first.filterMap global?) second := by
  induction first generalizing stack globals with
  | nil => simp [Resolved]
  | cons command rest ih =>
    have hglobals : globals ++ command.global?.toList ++ rest.filterMap global? =
        globals ++ (command :: rest).filterMap global? := by
      cases h : command.global? <;> simp [h]
    simp only [List.cons_append, Resolved, ih, hglobals, List.foldl_cons, and_assoc]

/-- Seen from each command, its references are declared before it. -/
theorem resolved_iff {commands : List Command} :
    Resolved [] [] commands ↔ ∀ before command after, commands = before ++ command :: after →
      ∀ name ∈ command.references, Declared before name := by
  constructor
  · rintro h before command after rfl
    exact ((resolved_append before _).1 h).2.1
  · intro h
    -- The commands are taken from the left; those already seen are kept in front.
    suffices hrest : ∀ before rest, commands = before ++ rest →
        Resolved (opened before) (before.filterMap global?) rest from hrest [] commands rfl
    intro before rest
    induction rest generalizing before with
    | nil => exact fun _ => trivial
    | cons command rest ih =>
      intro hsplit
      refine ⟨h before command rest hsplit, ?_⟩
      have hnext := ih (before ++ [command]) (by rw [hsplit, List.append_assoc]; rfl)
      rw [opened, List.foldl_append, List.filterMap_append] at hnext
      cases hglobal : command.global? <;> simpa [opened, hglobal] using hnext

theorem resolved_withoutTexts (commands : List Command) :
    Resolved stack globals (withoutTexts commands) ↔ Resolved stack globals commands := by
  induction commands generalizing stack globals with
  | nil => rfl
  | cons command rest ih =>
    cases command with
    | outText text =>
      have hskip : withoutTexts (.outText text :: rest) = withoutTexts rest := rfl
      have htext : Resolved stack globals (.outText text :: rest) ↔
          Resolved stack globals rest := by
        simp [Resolved, references, track, opens?, closes?, global?]
      rw [hskip, htext, ih]
    | _ => exact and_congr_right fun _ => ih

end Command

/-- Joining texts changes nothing in what is resolved. -/
theorem Stream.resolved_ofCommands (written : List Command) :
    Command.Resolved [] [] (ofCommands written).commands ↔ Command.Resolved [] [] written := by
  rw [← Command.resolved_withoutTexts, withoutTexts_ofCommands, Command.resolved_withoutTexts]

end Stencil
