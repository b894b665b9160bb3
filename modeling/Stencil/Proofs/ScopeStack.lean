import Stencil.Scope

/-!
# Scopes as stacks

A declaration that is undone leaves no trace: popping a scope gives back what was there before the
last push, in both of its views. The view by name holds sorted entries without empty lists, and that
is all the argument needs.

## Main definitions

* `Entries.Sorted`: the names increase
* `Scope.Proper`: the entries of a scope are sorted, and none of them is empty

## Main results

* `Entries.find?_insert`, `Entries.find?_without`: lookup after a change
* `Scope.pop?_push`: popping undoes pushing
-/

namespace Stencil

namespace Entries

variable {α : Type} {name other : String} {value : α} {entries : Entries α}

/-- The names increase from each entry to the next ones. -/
def Sorted (entries : Entries α) : Prop :=
  entries.Pairwise fun first later => first.1 < later.1

@[simp] theorem find?_nil (name : String) : find? ([] : Entries α) name = none := rfl

theorem find?_cons (entry : String × α) (rest : Entries α) (name : String) :
    find? (entry :: rest) name = if name = entry.1 then some entry.2 else find? rest name := by
  obtain ⟨key, kept⟩ := entry
  by_cases h : name = key
  · simp [find?, h]
  · simp [find?, List.lookup_cons, h, beq_eq_false_iff_ne.2 h]

/-- After an insertion the new value stands under its name, and the others are where they were. -/
theorem find?_insert (entries : Entries α) (name other : String) (value : α) :
    (entries.insert name value).find? other =
      if other = name then some value else entries.find? other := by
  induction entries with
  | nil => simp [insert, find?_cons]
  | cons entry rest ih =>
    obtain ⟨key, kept⟩ := entry
    rw [insert]
    split
    · rw [find?_cons]
    · split
      · next h =>
        subst h
        rw [find?_cons, find?_cons]
        split <;> rfl
      · next h =>
        rw [find?_cons, find?_cons, ih]
        by_cases hkey : other = key
        · rw [if_pos hkey, if_pos hkey, if_neg fun hname => h (hname.symm.trans hkey)]
        · rw [if_neg hkey, if_neg hkey]

theorem find?_without (entries : Entries α) (names : List String) (name : String) :
    (entries.without names).find? name = if name ∈ names then none else entries.find? name := by
  induction entries with
  | nil => simp [without]
  | cons entry rest ih =>
    obtain ⟨key, kept⟩ := entry
    have hrest : find? (without rest names) name = if name ∈ names then none else find? rest name :=
      ih
    rw [find?_cons, without, List.filter_cons]
    by_cases hkey : key ∈ names
    · rw [if_neg (by simp [hkey])]
      refine hrest.trans ?_
      by_cases hname : name ∈ names
      · simp [hname]
      · have hne : name ≠ key := fun h => hname (h ▸ hkey)
        simp [hname, hne]
    · rw [if_pos (by simp [hkey]), find?_cons]
      by_cases hname : name = key
      · simp [hname, hkey]
      · rw [if_neg hname, if_neg hname]
        exact hrest

/-- A name that is looked up in vain is the name of no entry. -/
theorem ne_of_find?_eq_none (h : entries.find? name = none) :
    ∀ entry ∈ entries, entry.1 ≠ name := by
  induction entries with
  | nil => simp
  | cons entry rest ih =>
    rw [find?_cons] at h
    split at h
    · cases h
    · next hne =>
      intro found hfound
      rcases List.mem_cons.1 hfound with rfl | hrest
      · exact Ne.symm hne
      · exact ih h found hrest

/-- A name that is found is the name of an entry. -/
theorem mem_of_find?_eq_some (h : entries.find? name = some value) : (name, value) ∈ entries := by
  induction entries with
  | nil => simp at h
  | cons entry rest ih =>
    rw [find?_cons] at h
    split at h
    · next heq =>
      obtain ⟨key, kept⟩ := entry
      simp_all
    · exact List.mem_cons_of_mem _ (ih h)

/-- An entry put in and taken out again leaves what was there. -/
theorem without_insert (h : entries.find? name = none) :
    (entries.insert name value).without [name] = entries := by
  have hfilter : entries.without [name] = entries := by
    refine List.filter_eq_self.2 fun entry hentry => ?_
    simp [ne_of_find?_eq_none h entry hentry]
  induction entries with
  | nil => simp [insert, without]
  | cons entry rest ih =>
    obtain ⟨key, kept⟩ := entry
    have hne : key ≠ name := ne_of_find?_eq_none h _ List.mem_cons_self
    rw [find?_cons, if_neg (Ne.symm hne)] at h
    rw [insert]
    split
    · simpa [without] using hfilter
    · rw [if_neg (Ne.symm hne), without, List.filter_cons_of_pos (by simp [hne])]
      refine congrArg _ (ih h ?_)
      refine List.filter_eq_self.2 fun found hfound => ?_
      simp [ne_of_find?_eq_none h found hfound]

/-- Of two values put under one name, the second stays. -/
theorem insert_insert (entries : Entries α) (name : String) (first second : α) :
    (entries.insert name first).insert name second = entries.insert name second := by
  induction entries with
  | nil => simp [insert]
  | cons entry rest ih =>
    obtain ⟨key, kept⟩ := entry
    by_cases hlt : name < key
    · simp [insert, hlt]
    · by_cases heq : name = key
      · simp [insert, heq]
      · simp [insert, hlt, heq, ih]

/-- A value put where it stands changes nothing. -/
theorem insert_of_find?_eq_some (hsorted : Sorted entries) (h : entries.find? name = some value) :
    entries.insert name value = entries := by
  induction entries with
  | nil => simp at h
  | cons entry rest ih =>
    obtain ⟨key, kept⟩ := entry
    rw [find?_cons] at h
    by_cases heq : name = key
    · simp_all [insert]
    · rw [if_neg heq] at h
      -- The name is found later, so it is greater than the first one and goes past it.
      have hlt : key < name := (List.pairwise_cons.1 hsorted).1 _ (mem_of_find?_eq_some h)
      rw [insert, if_neg fun h' => String.lt_irrefl _ (String.lt_trans hlt h'), if_neg heq,
        ih (List.pairwise_cons.1 hsorted).2 h]

theorem mem_insert {entry : String × α} (h : entry ∈ entries.insert name value) :
    entry = (name, value) ∨ entry ∈ entries := by
  induction entries with
  | nil => simpa [insert] using h
  | cons first rest ih =>
    obtain ⟨key, kept⟩ := first
    rw [insert] at h
    split at h
    · simpa using h
    · split at h
      · rcases List.mem_cons.1 h with rfl | h
        · exact .inl rfl
        · exact .inr (List.mem_cons_of_mem _ h)
      · rcases List.mem_cons.1 h with rfl | h
        · exact .inr List.mem_cons_self
        · exact (ih h).imp_right (List.mem_cons_of_mem _)

theorem Sorted.insert (hsorted : Sorted entries) : Sorted (entries.insert name value) := by
  induction entries with
  | nil => simp [Entries.insert, Sorted]
  | cons first rest ih =>
    obtain ⟨key, kept⟩ := first
    obtain ⟨hfirst, hrest⟩ := List.pairwise_cons.1 hsorted
    rw [Entries.insert]
    split
    · next hlt =>
      refine List.pairwise_cons.2 ⟨fun entry hentry => ?_, hsorted⟩
      rcases List.mem_cons.1 hentry with rfl | hentry
      · exact hlt
      · exact String.lt_trans hlt (hfirst entry hentry)
    · next hlt =>
      split
      · next heq =>
        subst heq
        exact List.pairwise_cons.2 ⟨hfirst, hrest⟩
      · next hne =>
        refine List.pairwise_cons.2 ⟨fun entry hentry => ?_, ih hrest⟩
        rcases mem_insert hentry with rfl | hentry
        · exact String.not_le.1 fun hle => hne (String.le_antisymm hle (String.not_lt.1 hlt))
        · exact hfirst entry hentry

end Entries

namespace Scope

variable {α : Type} {scope : Scope α}

/-- The view by name is sorted, and holds a name only with declarations. -/
structure Proper (scope : Scope α) : Prop where
  sorted : scope.byName.Sorted
  nonempty : ∀ key, scope.byName.find? key ≠ some []

theorem proper_empty : (empty : Scope α).Proper where
  sorted := List.Pairwise.nil
  nonempty key := by simp [empty]

theorem Proper.push (h : scope.Proper) (name : String) (data : α) :
    (scope.push name data).Proper where
  sorted := h.sorted.insert
  nonempty key := by
    rw [Scope.push, Entries.find?_insert]
    split
    · simp
    · exact h.nonempty key

/-- Popping undoes pushing. -/
theorem pop?_push (h : scope.Proper) (name : String) (data : α) :
    (scope.push name data).pop? = some (Text.lower name, scope) := by
  have hdrop : dropInnermost (scope.push name data).byName (Text.lower name) = scope.byName := by
    simp only [dropInnermost, Scope.push, Entries.find?_insert, if_pos, Option.getD_some]
    -- A name that was new loses its entry; one that was declared has the old declarations again.
    cases hfind : scope.byName.find? (Text.lower name) with
    | none =>
      simp only [under, hfind, Option.getD_none]
      exact Entries.without_insert hfind
    | some kept =>
      cases kept with
      | nil => exact absurd hfind (h.nonempty _)
      | cons next rest =>
        simp only [under, hfind, Option.getD_some]
        rw [Entries.insert_insert, Entries.insert_of_find?_eq_some h.sorted hfind]
  simp only [pop?, Scope.push] at hdrop ⊢
  rw [hdrop]

end Scope

end Stencil
