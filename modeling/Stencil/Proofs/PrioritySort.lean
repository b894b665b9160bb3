import Stencil.Sorted

/-!
# Sorting by priority

Sorting by priority permutes the items, puts them in increasing order of their keys, and keeps items
of one key in the order in which they came.

## Main results

* `Priority.sort_perm`: the sorted items are the items
* `Priority.pairwise_sort`: the keys increase
* `Priority.filter_sort`: items that all have one key keep their order
* `Priority.map_sort`: sorting does not look beyond the keys
-/

namespace Stencil.Priority

variable {α : Type} {key : α → Int}

theorem insert_perm (item : α) (items : List α) : (insert key item items).Perm (item :: items) := by
  induction items with
  | nil => exact .refl _
  | cons first rest ih =>
    rw [insert]
    split
    · exact .refl _
    · exact (ih.cons first).trans (.swap item first rest)

theorem foldl_insert_perm (items sorted : List α) :
    (items.foldl (fun sorted item => insert key item sorted) sorted).Perm (sorted ++ items) := by
  induction items generalizing sorted with
  | nil => simp
  | cons first rest ih =>
    rw [List.foldl_cons]
    refine (ih _).trans (((insert_perm first sorted).append_right rest).trans ?_)
    exact List.perm_middle.symm

theorem sort_perm (items : List α) : (sort key items).Perm items :=
  foldl_insert_perm items []

theorem pairwise_insert (item : α) {items : List α}
    (h : items.Pairwise fun first later => key first ≤ key later) :
    (insert key item items).Pairwise fun first later => key first ≤ key later := by
  induction items with
  | nil => simp [insert]
  | cons first rest ih =>
    obtain ⟨hfirst, hrest⟩ := List.pairwise_cons.1 h
    rw [insert]
    split
    · next hlt =>
      refine List.pairwise_cons.2 ⟨fun later hlater => ?_, h⟩
      rcases List.mem_cons.1 hlater with rfl | hlater
      · omega
      · have := hfirst later hlater
        omega
    · next hlt =>
      refine List.pairwise_cons.2 ⟨fun later hlater => ?_, ih hrest⟩
      rcases List.mem_cons.1 ((insert_perm item rest).mem_iff.1 hlater) with rfl | hlater
      · omega
      · exact hfirst later hlater

/-- Sorted items are in increasing order of their keys. -/
theorem pairwise_sort (items : List α) :
    (sort key items).Pairwise fun first later => key first ≤ key later := by
  have hfold (sorted : List α) (h : sorted.Pairwise fun first later => key first ≤ key later) :
      (items.foldl (fun sorted item => insert key item sorted) sorted).Pairwise
        fun first later => key first ≤ key later := by
    induction items generalizing sorted with
    | nil => exact h
    | cons first rest ih => exact ih _ (pairwise_insert first h)
  exact hfold [] .nil

/-- An item comes behind those of its key. -/
theorem filter_insert {keep : α → Bool} {place : Int} (hkeep : ∀ a, keep a → key a = place)
    (item : α) {items : List α} (h : items.Pairwise fun first later => key first ≤ key later) :
    (insert key item items).filter keep = items.filter keep ++ [item].filter keep := by
  induction items with
  | nil => rfl
  | cons first rest ih =>
    obtain ⟨hfirst, hrest⟩ := List.pairwise_cons.1 h
    rw [insert]
    split
    · next hlt =>
      by_cases hitem : keep item
      · -- Behind the place of the item all keys are greater, so nothing there is kept.
        have hnone : (first :: rest).filter keep = [] := by
          refine List.filter_eq_nil_iff.2 fun later hlater hlaterKeep => ?_
          have hle : key first ≤ key later := by
            rcases List.mem_cons.1 hlater with rfl | hlater
            · exact Int.le_refl _
            · exact hfirst later hlater
          have := hkeep _ hitem
          have := hkeep _ hlaterKeep
          omega
        rw [List.filter_cons_of_pos hitem, hnone]
        simp [hitem]
      · simp [List.filter_cons, hitem]
    · rw [List.filter_cons, List.filter_cons, ih hrest]
      split <;> simp

/-- Items that all have one key keep their order. -/
theorem filter_sort {keep : α → Bool} {place : Int} (hkeep : ∀ a, keep a → key a = place)
    (items : List α) : (sort key items).filter keep = items.filter keep := by
  have hfold (sorted : List α) (h : sorted.Pairwise fun first later => key first ≤ key later) :
      (items.foldl (fun sorted item => insert key item sorted) sorted).filter keep =
        sorted.filter keep ++ items.filter keep := by
    induction items generalizing sorted with
    | nil => simp
    | cons first rest ih =>
      rw [List.foldl_cons, ih _ (pairwise_insert first h), filter_insert hkeep first h,
        List.append_assoc, ← List.filter_append]
      rfl
  simpa [sort] using hfold [] .nil

theorem map_insert {β : Type} (f : α → β) (rank : β → Int) (item : α) (items : List α) :
    (insert (fun a => rank (f a)) item items).map f = insert rank (f item) (items.map f) := by
  induction items with
  | nil => rfl
  | cons first rest ih =>
    rw [insert, List.map_cons, insert]
    split
    · rfl
    · rw [List.map_cons, ih]

/-- Sorting does not look beyond the keys. -/
theorem map_sort {β : Type} (f : α → β) (rank : β → Int) (items : List α) :
    (sort (fun a => rank (f a)) items).map f = sort rank (items.map f) := by
  have hfold (sorted : List α) :
      (items.foldl (fun sorted item => insert (fun a => rank (f a)) item sorted) sorted).map f =
        (items.map f).foldl (fun sorted item => insert rank item sorted) (sorted.map f) := by
    induction items generalizing sorted with
    | nil => rfl
    | cons first rest ih =>
      rw [List.foldl_cons, ih, map_insert]
      rfl
  exact hfold []

end Stencil.Priority
