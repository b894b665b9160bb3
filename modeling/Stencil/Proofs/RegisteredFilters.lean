import Stencil.Proofs.Registrations

/-!
# Registries of filters

A filter is put in front of the first filter of a greater priority. Over many registrations this is
a stable sort: a list is known by its items of each key, in their order, once its keys increase, and
both ways lead to such a list with the same items. No two registered filters share an option, so an
option belongs to one of them at most, and looking for the first one that owns it finds this one.

## Main definitions

* `Pipeline.Sound`: a pipeline holds filters in order, and knows the owner of each option

## Main results

* `Pipeline.InOrder.eq_mergeSort`: filters in order are those of a stable sort
* `Pipeline.exists_register_iff`: when a registration is accepted
* `Pipeline.sound_registerAll`: what every sequence of registrations keeps
-/

namespace Stencil

/-! ### Stable sorting -/

namespace Priority

variable {α : Type} {key : α → Int} {items others : List α}

theorem mem_of_filter_eq (h : ∀ place, items.filter (key · = place) = others.filter (key · = place))
    {item : α} (hitem : item ∈ items) : item ∈ others := by
  have hkept : item ∈ items.filter (key · = key item) := by simpa using hitem
  rw [h] at hkept
  exact List.mem_of_mem_filter hkept

theorem first_le {first item : α}
    (h : (first :: items).Pairwise fun first later => key first ≤ key later)
    (hitem : item ∈ first :: items) : key first ≤ key item := by
  rcases List.mem_cons.1 hitem with rfl | hlater
  · exact Int.le_refl _
  · exact (List.pairwise_cons.1 h).1 item hlater

/-- Sorted lists with the same items of each key, in the same order, are the same. -/
theorem eq_of_filter_eq (hitems : items.Pairwise fun first later => key first ≤ key later)
    (hothers : others.Pairwise fun first later => key first ≤ key later)
    (h : ∀ place, items.filter (key · = place) = others.filter (key · = place)) :
    items = others := by
  induction items generalizing others with
  | nil =>
    cases others with
    | nil => rfl
    | cons other rest =>
      have hother := mem_of_filter_eq (fun place => (h place).symm) (List.mem_cons_self ..)
      exact absurd hother List.not_mem_nil
  | cons item rest ih =>
    cases others with
    | nil => exact absurd (mem_of_filter_eq h (List.mem_cons_self ..)) List.not_mem_nil
    | cons other others =>
      -- Each of the two first items stands somewhere on the other side, so their keys are equal.
      have hkey : key other = key item := Int.le_antisymm
        (first_le hothers (mem_of_filter_eq h List.mem_cons_self))
        (first_le hitems (mem_of_filter_eq (fun place => (h place).symm) List.mem_cons_self))
      have hplace := h (key item)
      rw [List.filter_cons_of_pos (by simp),
        List.filter_cons_of_pos (by simpa using hkey)] at hplace
      obtain ⟨rfl, htail⟩ := List.cons.inj hplace
      have htails (place : Int) : rest.filter (key · = place) = others.filter (key · = place) := by
        by_cases hfirst : key item = place
        · rw [← hfirst]
          exact htail
        · have hlater := h place
          rwa [List.filter_cons_of_neg (by simpa using hfirst),
            List.filter_cons_of_neg (by simpa using hfirst)] at hlater
      rw [ih (List.pairwise_cons.1 hitems).2 (List.pairwise_cons.1 hothers).2 htails]

variable (key) in
/-- Comparing keys is transitive and total, which is what a stable sort asks for. -/
theorem compare_keys :
    (∀ first second third : α, decide (key first ≤ key second) = true →
      decide (key second ≤ key third) = true → decide (key first ≤ key third) = true) ∧
    ∀ first second : α,
      (decide (key first ≤ key second) || decide (key second ≤ key first)) = true := by
  constructor
  · intro first second third hfirst hsecond
    exact decide_eq_true (Int.le_trans (of_decide_eq_true hfirst) (of_decide_eq_true hsecond))
  · intro first second
    simpa using Int.le_total (key first) (key second)

theorem pairwise_mergeSort (items : List α) :
    (items.mergeSort fun first later => key first ≤ key later).Pairwise
      fun first later => key first ≤ key later :=
  (List.pairwise_mergeSort (compare_keys key).1 (compare_keys key).2 items).imp of_decide_eq_true

/-- A stable sort keeps the order of the items of one key. -/
theorem filter_mergeSort (items : List α) (place : Int) :
    (items.mergeSort fun first later => key first ≤ key later).filter (key · = place) =
      items.filter (key · = place) := by
  have hperm := (List.mergeSort_perm items fun first later => key first ≤ key later).filter
    (key · = place)
  -- The items of one key are sorted as they stand, so they are still there, in this order.
  have hties : (items.filter (key · = place)).Pairwise
      fun first later => decide (key first ≤ key later) = true := by
    refine List.pairwise_of_forall_mem_list fun first hfirst later hlater => ?_
    have hfirst := of_decide_eq_true (List.mem_filter.1 hfirst).2
    have hlater := of_decide_eq_true (List.mem_filter.1 hlater).2
    exact decide_eq_true (Int.le_of_eq (hfirst.trans hlater.symm))
  have hsublist := (List.sublist_mergeSort (compare_keys key).1 (compare_keys key).2 hties
    List.filter_sublist).filter (key · = place)
  simp only [List.filter_filter, Bool.and_self] at hsublist
  exact (hsublist.eq_of_length hperm.length_eq.symm).symm

end Priority

/-! ### One registration -/

namespace Filter

/-- A call after others is accepted just if it shares no option with what is taken then. -/
theorem accepted_append (taken : List String) (calls : List Filter) (filter : Filter) :
    accepted taken (calls ++ [filter]) =
      accepted taken calls ++
        accepted (taken ++ (accepted taken calls).flatMap owned) [filter] := by
  induction calls generalizing taken with
  | nil => simp [accepted]
  | cons first rest ih =>
    rw [List.cons_append, accepted, accepted]
    split
    · exact ih taken
    · rw [ih, List.cons_append, List.flatMap_cons, List.append_assoc]

end Filter

namespace Pipeline

variable {start pipeline : Pipeline} {filters : List Filter} {filter : Filter}

/-- Filters in order are those that a stable sort by priority gives. -/
theorem InOrder.eq_mergeSort (h : InOrder filters pipeline) :
    pipeline = filters.mergeSort fun first later => first.priority ≤ later.priority :=
  Priority.eq_of_filter_eq h.increasing (Priority.pairwise_mergeSort filters) fun place => by
    rw [Priority.filter_mergeSort, h.ties]

theorem InOrder.mem_owned (h : InOrder filters pipeline) (name : String) :
    name ∈ pipeline.owned ↔ name ∈ filters.flatMap Filter.owned :=
  (h.perm.flatMap_right Filter.owned).mem_iff

/-- The pipeline admits a filter just if it shares no option with any of those in order. -/
theorem InOrder.admits_iff (h : InOrder filters pipeline) (filter : Filter) :
    pipeline.Admits filter ↔ ∀ other ∈ filters, ∀ name ∈ filter.owned, name ∉ other.owned := by
  simp only [Admits, h.mem_owned, List.mem_flatMap, not_exists, not_and]
  exact ⟨fun hnone other hother name hname => hnone name hname other hother,
    fun hnone name hname other hother => hnone other hother name hname⟩

/-- A registration is accepted just if the pipeline admits the filter. -/
theorem exists_register_iff :
    (∃ next, pipeline.register filter = .ok next) ↔ pipeline.Admits filter := by
  unfold register
  cases hfound : filter.owned.find? pipeline.owned.contains with
  | none =>
    refine iff_of_true ⟨_, rfl⟩ fun name hname htaken => ?_
    exact List.find?_eq_none.1 hfound name hname (List.contains_iff_mem.2 htaken)
  | some option =>
    refine iff_of_false (fun haccepted => ?_) fun hadmits => ?_
    · obtain ⟨next, h⟩ := haccepted
      cases h
    · have htaken : pipeline.owned.contains option = true := List.find?_some hfound
      exact hadmits option (List.mem_of_find?_eq_some hfound) (List.contains_iff_mem.1 htaken)

/-- One more call counts as accepted just if the pipeline admits its filter. -/
theorem accepted_append_singleton {calls : List Filter}
    (h : InOrder (start ++ Filter.accepted start.owned calls) pipeline) (filter : Filter) :
    Filter.accepted start.owned (calls ++ [filter]) =
      Filter.accepted start.owned calls ++
        if filter.owned.any pipeline.owned.contains then [] else [filter] := by
  have htaken : (start.owned ++ (Filter.accepted start.owned calls).flatMap Filter.owned).contains =
      pipeline.owned.contains := by
    funext name
    rw [Bool.eq_iff_iff, List.contains_iff_mem, List.contains_iff_mem, h.mem_owned,
      List.flatMap_append]
    rfl
  rw [Filter.accepted_append, Filter.accepted, htaken]
  rfl

theorem registerAll_append_singleton (start : Pipeline) (calls : List Filter) (filter : Filter) :
    start.registerAll (calls ++ [filter]) = (start.registerAll calls).registerOrKeep filter := by
  simp [registerAll]

/-! ### Owners of options -/

/-- Where no two filters share an option, the first owner of an option is the only one. -/
theorem filter_owned_eq (h : pipeline.Disjoint) (option : String) :
    pipeline.filter (fun filter => filter.owned.contains option) =
      (pipeline.filterFor? option).toList := by
  induction pipeline with
  | nil => rfl
  | cons first rest ih =>
    obtain ⟨hfirst, hrest⟩ := List.pairwise_cons.1 h
    by_cases howned : first.owned.contains option = true
    · have hnone : rest.filter (fun filter => filter.owned.contains option) = [] := by
        refine List.filter_eq_nil_iff.2 fun later hlater hother => ?_
        exact hfirst later hlater option (List.contains_iff_mem.1 hother)
          (List.contains_iff_mem.1 howned)
      rw [List.filter_cons, if_pos howned, hnone, filterFor?, List.find?_cons, howned]
      rfl
    · rw [List.filter_cons, if_neg howned, ih hrest, filterFor?, filterFor?, List.find?_cons,
        Bool.eq_false_iff.2 howned]

/-! ### All registrations -/

/-- A pipeline holds filters in the order of a stable sort by priority, no two of them share an
option, and for an option it gives the only one that owns it, if there is one. -/
structure Sound (filters : List Filter) (pipeline : Pipeline) : Prop where
  sorted : pipeline = filters.mergeSort fun first later => first.priority ≤ later.priority
  disjoint : pipeline.Disjoint
  owner (option : String) :
    pipeline.filter (fun filter => filter.owned.contains option) =
      (pipeline.filterFor? option).toList

/-- **Registries.** After any registrations on no filters, or on those of the language but some, the
pipeline soundly holds the filters that it started with and those accepted since. One more filter is
accepted just if it shares no option with any of these. If it is, it is the latest accepted one, and
if not, all is as before. -/
theorem sound_registerAll {start : Pipeline}
    (hstart : start = [] ∨ ∃ disabled, start = without disabled) (calls : List Filter)
    (filter : Filter) :
    let accepted (calls : List Filter) := start ++ Filter.accepted start.owned calls
    let pipeline := start.registerAll calls
    Sound (accepted calls) pipeline ∧
      ((∃ next, pipeline.register filter = .ok next) ↔
        ∀ other ∈ accepted calls, ∀ name ∈ filter.owned, name ∉ other.owned) ∧
      (∀ next, pipeline.register filter = .ok next →
        start.registerAll (calls ++ [filter]) = next ∧
          accepted (calls ++ [filter]) = accepted calls ++ [filter]) ∧
      (∀ fault, pipeline.register filter = .error fault →
        start.registerAll (calls ++ [filter]) = pipeline ∧
          accepted (calls ++ [filter]) = accepted calls) := by
  intro accepted pipeline
  have hsublist : start.Sublist builtin := by
    rcases hstart with rfl | ⟨disabled, rfl⟩
    · exact List.nil_sublist _
    · exact List.filter_sublist
  have horder : InOrder (accepted calls) pipeline :=
    inOrder_registerAll (inOrder_self (increasing_builtin.sublist hsublist)) calls fun _ => .rfl
  have hdisjoint : pipeline.Disjoint :=
    disjoint_registerAll (disjoint_builtin.sublist hsublist) calls
  refine ⟨⟨horder.eq_mergeSort, hdisjoint, filter_owned_eq hdisjoint⟩,
    exists_register_iff.trans (horder.admits_iff filter), fun next hnext => ?_,
    fun fault hfault => ?_⟩
  · have hadmits := (admits_iff_any pipeline filter).1 (exists_register_iff.1 ⟨next, hnext⟩)
    refine ⟨?_, ?_⟩
    · rw [registerAll_append_singleton, registerOrKeep, hnext]
    · simp only [accepted, accepted_append_singleton horder, hadmits]
      exact (List.append_assoc ..).symm
  · have hrefused : filter.owned.any pipeline.owned.contains = true := by
      by_contra hany
      have hadmits := (admits_iff_any pipeline filter).2 (Bool.eq_false_iff.2 hany)
      obtain ⟨next, hnext⟩ := exists_register_iff.2 hadmits
      rw [hfault] at hnext
      cases hnext
    refine ⟨?_, ?_⟩
    · rw [registerAll_append_singleton, registerOrKeep, hfault]
    · simp only [accepted, accepted_append_singleton horder, hrefused]
      exact congrArg _ (List.append_nil _)

/-- On the filters of the language, `early` comes first of all and `late` behind `join`, which has
its priority. `taxes` is refused, since `money` has been given `currency` before. -/
theorem sound_registerAll_money :
    let calls : List Filter :=
      [.calling "late" [] 30, .calling "money" ["currency"] 20, .calling "early" [] (-1)]
    let taxes : Filter := .calling "taxes" ["rate", "currency"] 5
    let accepted := builtin ++ Filter.accepted builtin.owned calls
    let pipeline := builtin.registerAll calls
    pipeline.options = ["early", "i18n", "format", "money", "join", "late", "context"] ∧
      Sound accepted pipeline ∧
      ¬ (∀ other ∈ accepted, ∀ name ∈ taxes.owned, name ∉ other.owned) ∧
      ¬ ∃ next, pipeline.register taxes = .ok next := by
  intro calls taxes accepted pipeline
  have h := sound_registerAll (.inr ⟨[], rfl⟩) calls taxes
  have hrefused : ¬ ∀ other ∈ accepted, ∀ name ∈ taxes.owned, name ∉ other.owned := by decide
  exact ⟨by decide, h.1, hrefused, fun haccepted => hrefused (h.2.1.1 haccepted)⟩

end Pipeline

end Stencil
