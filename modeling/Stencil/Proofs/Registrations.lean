import Mathlib.Data.List.Basic
import Stencil.Proofs.Filters
import Stencil.Proofs.PrioritySort

/-!
# Filters and their registrations

A call of `register` either adds one filter or is refused, and a refused call changes nothing. So
what a pipeline does follows from the calls that made it: a filter is in force if it shares no
option with those in force before it, and the filters in force act in increasing order of their
priorities, those of one priority in the order of their calls. As no two of them share an option,
each of them finds the values that the expression had at the start.

## Main definitions

* `Pipeline.registerAll`: the pipeline after any number of calls
* `Filter.accepted`: the filters of those calls that are not refused
* `Pipeline.InOrder`: increasing priorities, one priority in the order of the calls

## Main results

* `Pipeline.inOrder_registerAll`: the order in which registered filters act
* `Pipeline.apply_apply`: filters that share no option act once
* `Pipeline.apply_registerAll`: what a pipeline does, by its registrations
-/

namespace Stencil

/-- The filters among `calls` that share no option with `taken` or with one accepted before. -/
def Filter.accepted (taken : List String) : List Filter → List Filter
  | [] => []
  | filter :: rest =>
    if filter.owned.any taken.contains then accepted taken rest
    else filter :: accepted (taken ++ filter.owned) rest

namespace Pipeline

variable {pipeline : Pipeline}

/-- The pipeline after a call of `register`; one that is refused leaves it as it is. -/
def registerOrKeep (pipeline : Pipeline) (filter : Filter) : Pipeline :=
  match pipeline.register filter with
  | .ok registered => registered
  | .error _ => pipeline

/-- The pipeline after calls of `register`, one after the other. -/
def registerAll (pipeline : Pipeline) (calls : List Filter) : Pipeline :=
  calls.foldl registerOrKeep pipeline

/-- The filters that an expression sets to work, in the order in which they act. -/
def acting (pipeline : Pipeline) (e : Expression) : List Filter :=
  pipeline.filter fun filter => e.hasOption filter.option

/-- The pipeline holds the filters in increasing order of priority, those of one priority in their
own order. -/
structure InOrder (filters : List Filter) (pipeline : Pipeline) : Prop where
  perm : pipeline.Perm filters
  increasing : pipeline.Pairwise fun first later => first.priority ≤ later.priority
  ties (priority : Int) :
    pipeline.filter (·.priority = priority) = filters.filter (·.priority = priority)

/-! ### One call -/

/-- No option of the filter belongs to one in the pipeline. -/
def Admits (pipeline : Pipeline) (filter : Filter) : Prop :=
  ∀ name ∈ filter.owned, name ∉ pipeline.owned

theorem admits_iff_any (pipeline : Pipeline) (filter : Filter) :
    pipeline.Admits filter ↔ filter.owned.any pipeline.owned.contains = false := by
  simp [Admits]

/-- A call adds its filter just if the pipeline admits it. -/
theorem registerOrKeep_eq (pipeline : Pipeline) (filter : Filter) :
    pipeline.registerOrKeep filter =
      if filter.owned.any pipeline.owned.contains then pipeline
      else Priority.insert Filter.priority filter pipeline := by
  unfold registerOrKeep register
  cases hfound : filter.owned.find? pipeline.owned.contains with
  | none =>
    rw [if_neg]
    intro hany
    obtain ⟨name, hname, htaken⟩ := List.any_eq_true.1 hany
    exact List.find?_eq_none.1 hfound name hname htaken
  | some option =>
    rw [if_pos]
    exact List.any_eq_true.2 ⟨option, List.mem_of_find?_eq_some hfound, List.find?_some hfound⟩

theorem inOrder_self (h : pipeline.Pairwise fun first later => first.priority ≤ later.priority) :
    InOrder pipeline pipeline :=
  ⟨.refl _, h, fun _ => rfl⟩

/-- A filter that is added comes behind those of its priority. -/
theorem InOrder.insert {filters : List Filter} (h : InOrder filters pipeline) (filter : Filter) :
    InOrder (filters ++ [filter]) (Priority.insert Filter.priority filter pipeline) where
  perm := (Priority.insert_perm filter pipeline).trans
    ((h.perm.cons filter).trans (List.perm_append_singleton filter filters).symm)
  increasing := Priority.pairwise_insert filter h.increasing
  ties priority := by
    have hkeep (other : Filter) (hother : decide (other.priority = priority) = true) :
        other.priority = priority := of_decide_eq_true hother
    rw [Priority.filter_insert hkeep filter h.increasing, h.ties, List.filter_append]

theorem disjoint_of_perm {other : Pipeline} (hperm : pipeline.Perm other) (h : pipeline.Disjoint) :
    other.Disjoint := by
  refine hperm.pairwise h ?_
  intro filter later hnone name hname howned
  exact hnone name howned hname

theorem Disjoint.insert (h : pipeline.Disjoint) {filter : Filter}
    (hadmits : pipeline.Admits filter) :
    Disjoint (Priority.insert Filter.priority filter pipeline) := by
  refine disjoint_of_perm (Priority.insert_perm filter pipeline).symm ?_
  refine List.pairwise_cons.2 ⟨?_, h⟩
  intro later hlater name hname howned
  exact hadmits name howned (List.mem_flatMap.2 ⟨later, hlater, hname⟩)

/-! ### All calls -/

/-- Registered filters act in the order that their priorities and their calls give. -/
theorem inOrder_registerAll {filters : List Filter} (h : InOrder filters pipeline)
    (calls : List Filter) {taken : List String}
    (htaken : ∀ name, name ∈ taken ↔ name ∈ pipeline.owned) :
    InOrder (filters ++ Filter.accepted taken calls) (pipeline.registerAll calls) := by
  induction calls generalizing filters pipeline taken with
  | nil => simpa [Filter.accepted, registerAll] using h
  | cons filter rest ih =>
    have hcontains : filter.owned.any taken.contains =
        filter.owned.any pipeline.owned.contains := by
      have hsame : taken.contains = pipeline.owned.contains := by
        funext name
        rw [Bool.eq_iff_iff, List.contains_iff_mem, List.contains_iff_mem, htaken]
      rw [hsame]
    change InOrder _ (registerAll (pipeline.registerOrKeep filter) rest)
    rw [Filter.accepted, hcontains, registerOrKeep_eq]
    split
    · exact ih h htaken
    · -- What is taken after the call are the options of all filters in force.
      have hnext (name : String) : name ∈ taken ++ filter.owned ↔
          name ∈ owned (Priority.insert Filter.priority filter pipeline) := by
        have hperm : (Priority.insert Filter.priority filter pipeline).Perm (filter :: pipeline) :=
          Priority.insert_perm filter pipeline
        rw [List.mem_append, htaken, owned, owned, (hperm.flatMap_right Filter.owned).mem_iff,
          List.flatMap_cons, List.mem_append, or_comm]
      have hrest := ih (h.insert filter) hnext
      rwa [List.append_assoc, List.singleton_append] at hrest

theorem disjoint_registerAll (h : pipeline.Disjoint) (calls : List Filter) :
    (pipeline.registerAll calls).Disjoint := by
  induction calls generalizing pipeline with
  | nil => exact h
  | cons filter rest ih =>
    refine ih ?_
    rw [registerOrKeep_eq]
    split
    · exact h
    · next hany =>
      exact h.insert ((admits_iff_any pipeline filter).2 (Bool.eq_false_iff.2 hany))

/-! ### What the filters do -/

theorem taken_eq (pipeline : Pipeline) (e : Expression) :
    pipeline.taken e = (pipeline.acting e).flatMap Filter.owned := by
  induction pipeline with
  | nil => rfl
  | cons filter rest ih =>
    rw [taken, List.flatMap_cons, acting, List.filter_cons]
    split
    · exact congrArg (filter.owned ++ ·) ih
    · exact ih

/-- What a filter does makes no difference to which of those after it act. -/
theorem acting_apply {filter : Filter} {rest : Pipeline}
    (h : ∀ later ∈ rest, ∀ name ∈ later.owned, name ∉ filter.owned) (e : Expression) :
    acting rest (filter.apply e) = acting rest e := by
  refine List.filter_congr fun later hlater => ?_
  rw [Expression.hasOption_eq, Expression.hasOption_eq,
    filter.option?_apply_of_notMem (h later hlater later.option List.mem_cons_self)]

/-- The root is replaced by the acting filters one after the other, and each of them is given the
values that its options had at the start. -/
theorem root_apply (h : pipeline.Disjoint) (e : Expression) :
    (pipeline.apply e).root =
      (pipeline.acting e).foldl
        (fun root filter => filter.replacement root (filter.owned.map e.option?)) e.root := by
  induction pipeline generalizing e with
  | nil => rfl
  | cons filter rest ih =>
    obtain ⟨hfilter, hrest⟩ := List.pairwise_cons.1 h
    -- The options of the filters that come later are still those of `e`.
    have hvalues (root : Term) (later : Filter) (hlater : later ∈ acting rest e) :
        later.replacement root (later.owned.map (filter.apply e).option?) =
          later.replacement root (later.owned.map e.option?) := by
      congr 1
      refine List.map_congr_left fun name hname => ?_
      exact filter.option?_apply_of_notMem (hfilter later (List.mem_filter.1 hlater).1 name hname) e
    calc (Pipeline.apply rest (filter.apply e)).root
        = (acting rest (filter.apply e)).foldl
            (fun root later => later.replacement root (later.owned.map (filter.apply e).option?))
            (filter.apply e).root := ih hrest _
      _ = (acting rest e).foldl
            (fun root later => later.replacement root (later.owned.map e.option?))
            (filter.apply e).root := by
        rw [acting_apply hfilter]
        exact List.foldl_ext _ _ _ hvalues
      _ = _ := by
        rw [acting, acting, List.filter_cons, Filter.apply]
        split <;> rfl

/-- Filters that have acted have nothing left to do. -/
theorem apply_apply (h : pipeline.Disjoint) (e : Expression) :
    pipeline.apply (pipeline.apply e) = pipeline.apply e := by
  refine (apply_eq_self_iff h _).2 fun name hname => ?_
  rw [Expression.hasOption_eq, option?_apply_eq_none h hname]
  rfl

theorem increasing_builtin :
    builtin.Pairwise fun first later => first.priority ≤ later.priority := by
  unfold builtin
  decide

/-- **Registrations.** After any calls of `register` on no filters, or on those of the language but
some, the pipeline holds the filters that it started with and those of the calls that share no
option with them or with each other, by increasing priority and then in the order of the calls. It
takes from an expression the options of the filters that it sets to work and no others, replaces its
root by these filters in their order, each with the values that the expression has at the start, and
changes nothing when it is applied once more. -/
theorem apply_registerAll {start : Pipeline}
    (hstart : start = [] ∨ ∃ disabled, start = without disabled) (calls : List Filter) :
    InOrder (start ++ Filter.accepted start.owned calls) (start.registerAll calls) ∧
      ∀ e : Expression,
        ((start.registerAll calls).apply e).options =
          e.options.without (((start.registerAll calls).acting e).flatMap Filter.owned) ∧
        ((start.registerAll calls).apply e).root =
          ((start.registerAll calls).acting e).foldl
            (fun root filter => filter.replacement root (filter.owned.map e.option?)) e.root ∧
        (start.registerAll calls).apply ((start.registerAll calls).apply e) =
          (start.registerAll calls).apply e := by
  have hsublist : start.Sublist builtin := by
    rcases hstart with rfl | ⟨disabled, rfl⟩
    · exact List.nil_sublist _
    · exact List.filter_sublist
  have hdisjoint := disjoint_registerAll (disjoint_builtin.sublist hsublist) calls
  refine ⟨?_, fun e => ⟨?_, root_apply hdisjoint e, apply_apply hdisjoint e⟩⟩
  · have horder := inOrder_self (increasing_builtin.sublist hsublist)
    exact inOrder_registerAll horder calls fun _ => .rfl
  · rw [options_apply hdisjoint, taken_eq]

/-- Of the calls on the filters but `format`, the one that wants the option of an earlier one is
refused. `format` comes behind the other filter of its priority, which was registered first. -/
theorem apply_registerAll_money :
    let calls : List Filter :=
      [.calling "money" ["currency"] 20, .calling "total" ["currency"] 5, .format]
    let pipeline := (without ["format"]).registerAll calls
    pipeline.options = ["i18n", "money", "format", "join", "context"] ∧
      InOrder (without ["format"] ++ Filter.accepted (without ["format"]).owned calls) pipeline ∧
      ∀ e, pipeline.apply (pipeline.apply e) = pipeline.apply e := by
  intro calls pipeline
  have h := apply_registerAll (.inr ⟨["format"], rfl⟩) calls
  exact ⟨by decide, h.1, fun e => (h.2 e).2.2⟩

end Pipeline

end Stencil
