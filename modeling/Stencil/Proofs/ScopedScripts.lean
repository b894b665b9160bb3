import Stencil.Proofs.DisciplinedWalk

/-!
# Scripts that refer to what they declare

A script is scoped if each of its references is to a variable that is visible there: one of those
visible before, one that a statement before has bound in the rest of the document, or one that a
block around declares. The references among the commands of such a script are resolved. The script
of a template is scoped, whatever is visible before.

## Main definitions

* `Discipline.scoping`: the rule that references are to visible variables
* `Markup.Template.gather`: the names of a kind that the directives of a template have

## Main results

* `Script.resolved_commands`: the references of a scoped script are resolved
* `Markup.Template.scoped_draft`: the script of a template is scoped
-/

namespace Stencil

/-- The variables that a statement binds in the rest of the document. -/
def Statement.globals (x : Statement) : List String :=
  x.commands.filterMap Command.global?

/-- References are to visible variables, and only variables of `given` are bound in the rest of the
document. -/
def Discipline.scoping (given : List String) : Discipline String where
  Name _ := True
  Global name := name ∈ given
  Variable visible name := name ∈ visible
  Value visible value _ := ∀ name ∈ value.statusNames, name ∈ visible
  checked _ _ := ∅
  bound name := {name}
  declared name := {name}
  variable_mono hsub h := hsub h
  value_mono hsub h name hname := hsub (h name hname)

open Discipline

namespace Script

/-! ### Commands of scoped scripts -/

/-- A variable is declared by an open block or in the rest of the document. -/
def Held (stack : List Command) (globals : List String) (name : String) : Prop :=
  (∃ opener ∈ stack, name ∈ opener.declaredNames) ∨ name ∈ globals

variable {given globals : List String} {visible : Set String} {stack : List Command}

theorem held_inside {header : Header} (hvisible : ∀ name ∈ visible, Held stack globals name) :
    ∀ name ∈ visible ∪ (scoping given).inside header,
      Held (header.inside stack) globals name := by
  rintro name (hname | ⟨_, hdeclared, rfl⟩)
  · rcases hvisible name hname with ⟨opener, hopener, hdeclared⟩ | hglobal
    · exact .inl ⟨opener, List.mem_append_right _ hopener, hdeclared⟩
    · exact .inr hglobal
  · obtain ⟨opener, hopener, hdeclared⟩ := List.mem_flatMap.1 hdeclared
    exact .inl ⟨opener, List.mem_append_left _ hopener, hdeclared⟩

theorem held_after {x : Statement} (hvisible : ∀ name ∈ visible, Held stack globals name) :
    ∀ name ∈ visible ∪ (scoping given).after x, Held stack (globals ++ x.globals) name := by
  rintro name (hname | hname)
  · exact (hvisible name hname).imp_right (List.mem_append_left _)
  · cases x with
    | bindGlobal bound value here =>
      exact .inr (List.mem_append_right _ (List.mem_singleton.2 hname))
    | _ => exact hname.elim

theorem resolved_statement {x : Statement} (h : (scoping given).Allows visible x)
    (hvisible : ∀ name ∈ visible, Held stack globals name) :
    Command.Resolved stack globals x.commands := by
  -- A statement writes at most one command.
  cases x with
  | bindGlobal name value here => exact ⟨fun name hname => hvisible name (h.2 name hname), trivial⟩
  | outVariable name => exact ⟨List.forall_mem_singleton.2 (hvisible name h), trivial⟩
  | callProcedure template arguments =>
    exact ⟨List.forall_mem_cons.2 ⟨hvisible template h.1,
      List.forall_mem_singleton.2 (hvisible arguments h.2)⟩, trivial⟩
  | outText => exact Command.resolved_singleton rfl
  | _ => trivial

theorem resolved_start {header : Header} (h : (scoping given).Opens visible header)
    (hvisible : ∀ name ∈ visible, Held stack globals name) :
    Command.Resolved stack globals header.start?.toList := by
  cases header with
  | binding kind name value here =>
    exact ⟨fun name hname => hvisible name (h.2 name hname), trivial⟩
  | conditional name expected => exact ⟨List.forall_mem_singleton.2 (hvisible name h), trivial⟩
  | loop list item index here => exact ⟨List.forall_mem_singleton.2 (hvisible list h.1), trivial⟩
  | procedure name parameters here => exact Command.resolved_singleton rfl
  | rawText => trivial

theorem resolved_close (header : Header) (stack : List Command) (globals : List String) :
    Command.Resolved stack globals header.close?.toList := by
  cases header with
  | rawText => trivial
  | _ => exact Command.resolved_singleton rfl

theorem global?_start (header : Header) : header.start?.toList.filterMap Command.global? = [] := by
  cases header <;> rfl

theorem global?_close (header : Header) : header.close?.toList.filterMap Command.global? = [] := by
  cases header <;> rfl

/-- The references of a scoped script are resolved, where what is visible is declared. -/
theorem resolved_commands {k : Script} (h : (scoping given).Keeps visible k)
    (hvisible : ∀ name ∈ visible, Held stack globals name) :
    Command.Resolved stack globals k.commands := by
  induction k generalizing visible stack globals with
  | done => trivial
  | statement x next ih =>
    rw [commands, Command.resolved_append, x.foldl_track_commands]
    exact ⟨resolved_statement h.1 hvisible, ih h.2 (held_after hvisible)⟩
  | block header body next hbody ih =>
    obtain ⟨hopens, hinside, hnext⟩ := h
    simp only [commands, Command.resolved_append, List.foldl_append, header.foldl_track_start,
      body.foldl_track_commands, header.foldl_track_close, List.filterMap_append, global?_start,
      global?_close, List.nil_append, List.append_nil]
    -- What the body binds in the rest of the document is there behind the block, too.
    refine ⟨⟨⟨resolved_start hopens hvisible, hbody hinside (held_inside hvisible)⟩,
      resolved_close header _ _⟩, ih hnext fun name hname => ?_⟩
    exact (hvisible name hname).imp_right (List.mem_append_left _)

/-- A scoped script binds only variables of `given` in the rest of the document. -/
theorem globals_commands {k : Script} (h : (scoping given).Keeps visible k) :
    k.commands.filterMap Command.global? ⊆ given := by
  induction k generalizing visible with
  | done => exact List.nil_subset _
  | statement x next ih =>
    rw [commands, List.filterMap_append]
    refine List.append_subset.2 ⟨?_, ih h.2⟩
    cases x with
    | bindGlobal name value here => exact List.cons_subset.2 ⟨h.1.1, List.nil_subset _⟩
    | _ => exact List.nil_subset _
  | block header body next hbody ih =>
    simp only [commands, List.filterMap_append, global?_start, global?_close, List.nil_append,
      List.append_nil]
    exact List.append_subset.2 ⟨hbody h.2.1, ih h.2.2⟩

end Script

/-! ### Templates -/

/-- Neither the filters nor the walk make an expression ask for a status. -/
theorem Written.Makes.statusFree {filters : Pipeline} (hfilters : filters ⊆ .builtin)
    {source : Written} (h : source.expression.Forall Term.StatusFree)
    {placement? : Option Placement} {value : Term}
    (hmakes : source.Makes filters placement? value) : value.StatusFree := by
  obtain ⟨hroot, hoptions⟩ := statusFree_filtered hfilters h placement?
  have hmap := Term.statusFree_map hoptions
  cases hmakes with
  | root => exact hroot
  | options => exact hmap
  | handed hfunction =>
    refine Term.statusFree_call ?_
      (List.forall_mem_cons.2 ⟨hroot, List.forall_mem_singleton.2 hmap⟩)
    rintro rfl
    exact absurd hfunction (by decide)
  | attributes => exact Term.statusFree_call (by decide) (List.forall_mem_singleton.2 hroot)
  | choice tag => exact Term.statusFree_choice hroot hroot rfl

theorem Discipline.suits_scoping {filters : Pipeline} (hfilters : filters ⊆ .builtin)
    (given : List String) : (scoping given).Suits filters (·.Forall Term.StatusFree) where
  expression h _ _ hmem := Fragment.forall_of_parse Term.inherited_statusFree h _ _ hmem
  value h hmakes _ name hname := by
    rw [hmakes.statusFree hfilters h] at hname
    cases hname
  status hlist hindex name hname := by
    rename_i m n _ _
    have hstatus : name = Session.symbol n ∨ name = Session.symbol m := by
      simpa [Term.statusNames, Term.namesOfItems, Term.names] using hname
    rcases hstatus with rfl | rfl
    · exact hindex rfl
    · exact hlist rfl
  variable_declared _ h := h rfl
  variable_bound _ h := h rfl
  symbol _ := trivial
  item := trivial
  status_name _ := trivial

namespace Markup

variable {registry : Registry}

/-- The names of a kind that the directives on tags have. -/
def namesOn (names : Occurrence → List String) (registry : Registry) (tags : List Tag) :
    List String :=
  tags.flatMap fun tag => (occurrences registry tag.attributes).flatMap names

/-- The names of a kind that the directives of a template have. -/
def Template.gather (names : Occurrence → List String) (registry : Registry)
    (template : Template) : List String :=
  namesOn names registry template.tags

theorem Template.mem_gather {names : Occurrence → List String} {template : Template}
    {name : String} :
    name ∈ template.gather names registry ↔
      ∃ tag ∈ template.tags, ∃ o ∈ occurrences registry tag.attributes, name ∈ names o := by
  simp [Template.gather, namesOn]

theorem Template.gather_mono {names more : Occurrence → List String} (h : ∀ o, names o ⊆ more o)
    {template : Template} : template.gather names registry ⊆ template.gather more registry := by
  intro name hname
  obtain ⟨tag, htag, o, ho, hname⟩ := mem_gather.1 hname
  exact mem_gather.2 ⟨tag, htag, o, ho, h o hname⟩

/-- The script of a template that is read refers only to what it declares, and binds in the rest of
the document just what directives say. -/
theorem Template.scoped_draft {filters : Pipeline} (hregistry : registry.Unmarked)
    (hfilters : filters ⊆ .builtin) {size : Nat} {bytes : List UInt8} {template : Template}
    (hparse : parse size bytes = .ok template) :
    (scoping (template.gather Occurrence.assigned registry)).Admits ∅
      (template.draft filters registry) := by
  refine admits_draft (suits_scoping hfilters _) hregistry (fun tag htag => ⟨?_, fun o ho => ?_⟩) ∅
  · exact forall_directives_of_parse Term.inherited_statusFree hparse tag htag
  · exact ⟨fun _ _ => trivial, fun _ _ => trivial,
      fun name hname => mem_gather.2 ⟨tag, htag, o, ho, hname⟩⟩

end Markup

end Stencil
