import Stencil.Proofs.ScopeStack
import Stencil.Session

/-!
# What filters look at

A filter looks at the root and at the options that it owns, and at nothing else. So filters that do
not own an option treat expressions that differ in this option alike, and leave the option as it is.

## Main definitions

* `Expression.AgreeOff`: two expressions differ at most in certain options
* `Pipeline.taken`: the options that filters take from an expression

## Main results

* `Filter.option?_apply`: the options that a filter leaves
* `Pipeline.options_apply`: the options that filters leave
* `Pipeline.apply_eq_self_iff`: when filters leave an expression as it is
-/

namespace Stencil

variable {name : String}

namespace Entries

variable {α : Type} (entries : Entries α)

theorem without_nil : entries.without [] = entries := by
  simp [without]

theorem without_without (first second : List String) :
    (entries.without first).without second = entries.without (first ++ second) := by
  simp [without, List.filter_filter, Bool.and_comm]

end Entries

namespace Expression

/-- Two expressions have the same root, and the same options under all names but `names`. -/
structure AgreeOff (names : List String) (e e' : Expression) : Prop where
  root : e.root = e'.root
  option? : ∀ name, name ∉ names → e.option? name = e'.option? name

theorem eq_of_root_options {e e' : Expression} (hroot : e.root = e'.root)
    (hoptions : e.options = e'.options) : e = e' := by
  cases e
  cases e'
  rw [mk.injEq]
  exact ⟨hroot, hoptions⟩

theorem hasOption_eq (e : Expression) (name : String) :
    e.hasOption name = (e.option? name).isSome := rfl

theorem AgreeOff.hasOption {names : List String} {e e' : Expression} (h : e.AgreeOff names e')
    (hname : name ∉ names) : e.hasOption name = e'.hasOption name := by
  rw [hasOption_eq, hasOption_eq, h.option? name hname]

theorem option?_withOption (e : Expression) (name other : String) (value : Term) :
    (e.withOption name value).option? other =
      if other = name then some value else e.option? other :=
  Entries.find?_insert e.options name other value

end Expression

namespace Filter

variable (filter : Filter) {e e' : Expression} {names : List String}

/-- A filter that is set to work takes away its options; all others stay. -/
theorem option?_apply (e : Expression) (name : String) :
    (filter.apply e).option? name =
      if e.hasOption filter.option ∧ name ∈ filter.owned then none else e.option? name := by
  unfold apply
  by_cases hoption : e.hasOption filter.option = true
  · rw [if_pos hoption]
    simp only [hoption, true_and]
    exact Entries.find?_without e.options filter.owned name
  · rw [if_neg hoption, if_neg fun h => hoption h.1]

theorem option?_apply_of_notMem (h : name ∉ filter.owned) (e : Expression) :
    (filter.apply e).option? name = e.option? name := by
  rw [option?_apply, if_neg fun hboth => h hboth.2]

/-- A filter treats alike what agrees on the options that it owns. -/
theorem agreeOff_apply (h : ∀ name ∈ filter.owned, name ∉ names) (hagree : e.AgreeOff names e') :
    (filter.apply e).AgreeOff names (filter.apply e') := by
  have hoption := hagree.hasOption (h _ List.mem_cons_self)
  constructor
  · -- The new root is made from the old one and from the values of the owned options.
    have hvalues : filter.owned.map e.option? = filter.owned.map e'.option? :=
      List.map_congr_left fun name hname => hagree.option? name (h name hname)
    unfold apply
    rw [hoption, hagree.root, hvalues]
    split
    · rfl
    · exact hagree.root
  · intro name hname
    rw [option?_apply, option?_apply, hoption, hagree.option? name hname]

end Filter

namespace Pipeline

variable {names : List String} {e e' : Expression} {pipeline : Pipeline}

theorem option?_apply_of_notMem (h : name ∉ pipeline.owned) (e : Expression) :
    (pipeline.apply e).option? name = e.option? name := by
  induction pipeline generalizing e with
  | nil => rfl
  | cons filter rest ih =>
    rw [owned, List.flatMap_cons, List.mem_append, not_or] at h
    exact (ih h.2 _).trans (filter.option?_apply_of_notMem h.1 e)

/-- Filters treat alike what agrees on the options that they own. -/
theorem agreeOff_apply (h : ∀ name ∈ pipeline.owned, name ∉ names) (hagree : e.AgreeOff names e') :
    (pipeline.apply e).AgreeOff names (pipeline.apply e') := by
  induction pipeline generalizing e e' with
  | nil => exact hagree
  | cons filter rest ih =>
    have hfilter : ∀ name ∈ filter.owned, name ∉ names := fun name hname =>
      h name (List.mem_flatMap.2 ⟨filter, List.mem_cons_self, hname⟩)
    have hrest : ∀ name ∈ Pipeline.owned rest, name ∉ names := fun name hname =>
      h name (List.mem_append.2 (.inr hname))
    exact ih hrest (filter.agreeOff_apply hfilter hagree)

/-! ### Options that are taken -/

/-- No two filters own the same option. -/
def Disjoint (pipeline : Pipeline) : Prop :=
  pipeline.Pairwise fun filter later => ∀ name ∈ later.owned, name ∉ filter.owned

/-- The options that filters take from an expression: those of the filters that it sets to work. -/
def taken (pipeline : Pipeline) (e : Expression) : List String :=
  pipeline.flatMap fun filter => if e.hasOption filter.option then filter.owned else []

theorem disjoint_builtin : builtin.Disjoint := by
  unfold Disjoint builtin
  decide

/-- What a filter takes makes no difference to those after it. -/
theorem taken_apply {filter : Filter} {rest : Pipeline}
    (h : ∀ later ∈ rest, ∀ name ∈ later.owned, name ∉ filter.owned) (e : Expression) :
    taken rest (filter.apply e) = taken rest e := by
  induction rest with
  | nil => rfl
  | cons later rest ih =>
    have hlater := h later List.mem_cons_self later.option List.mem_cons_self
    have hsame : (filter.apply e).hasOption later.option = e.hasOption later.option := by
      rw [Expression.hasOption_eq, filter.option?_apply_of_notMem hlater, Expression.hasOption_eq]
    have hrest := ih fun other hother => h other (List.mem_cons_of_mem _ hother)
    unfold taken at hrest ⊢
    rw [List.flatMap_cons, List.flatMap_cons, hsame, hrest]

/-- Filters leave the options that they do not take. -/
theorem options_apply (h : pipeline.Disjoint) (e : Expression) :
    (pipeline.apply e).options = e.options.without (pipeline.taken e) := by
  induction pipeline generalizing e with
  | nil => exact e.options.without_nil.symm
  | cons filter rest ih =>
    obtain ⟨hfilter, hrest⟩ := List.pairwise_cons.1 h
    have hone : (filter.apply e).options =
        e.options.without (if e.hasOption filter.option then filter.owned else []) := by
      unfold Filter.apply
      split
      · rfl
      · exact e.options.without_nil.symm
    have happly : Pipeline.apply (filter :: rest) e = Pipeline.apply rest (filter.apply e) := rfl
    rw [happly, ih hrest, taken_apply hfilter, hone, Entries.without_without]
    rfl

theorem mem_taken (hname : name ∈ pipeline.options) {e : Expression}
    (hoption : e.hasOption name = true) : name ∈ pipeline.taken e := by
  obtain ⟨filter, hfilter, rfl⟩ := List.mem_map.1 hname
  refine List.mem_flatMap.2 ⟨filter, hfilter, ?_⟩
  rw [if_pos hoption]
  exact List.mem_cons_self

/-- An option that sets a filter to work is never left. -/
theorem option?_apply_eq_none (h : pipeline.Disjoint) (hname : name ∈ pipeline.options)
    (e : Expression) :
    (pipeline.apply e).option? name = none := by
  rw [Expression.option?, options_apply h, Entries.find?_without]
  split
  · rfl
  · next hleft =>
    cases hfound : e.options.find? name with
    | none => rfl
    | some value => exact absurd (mem_taken hname (congrArg Option.isSome hfound)) hleft

/-- Filters leave an expression as it is just if it sets none of them to work. -/
theorem apply_eq_self_iff (h : pipeline.Disjoint) (e : Expression) :
    pipeline.apply e = e ↔ ∀ name ∈ pipeline.options, e.hasOption name = false := by
  constructor
  · intro hsame name hname
    rw [← hsame, Expression.hasOption_eq, option?_apply_eq_none h hname]
    rfl
  · intro hnone
    -- A filter that is not set to work does nothing, whatever the others own.
    clear h
    induction pipeline with
    | nil => rfl
    | cons filter rest ih =>
      have hfilter : filter.apply e = e := by
        unfold Filter.apply
        rw [if_neg]
        rw [hnone filter.option List.mem_cons_self]
        decide
      have happly : Pipeline.apply (filter :: rest) e = Pipeline.apply rest (filter.apply e) := rfl
      rw [happly, hfilter]
      exact ih fun name hname => hnone name (List.mem_cons_of_mem _ hname)

end Pipeline

end Stencil
