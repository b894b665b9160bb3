import Mathlib.Algebra.Group.End
import Mathlib.Algebra.BigOperators.Group.List.Basic
import Mathlib.Data.List.Perm.Basic
import Mathlib.Data.List.Sort
import Stencil.Proofs.Declarations
import Stencil.Proofs.RenamedElements

/-!
# Directives in another order

Each directive on an element takes the names that it needs when its turn comes. If the directives
are written in another order, they take the same names in another order: the numbers in the names
are permuted, in blocks. If no two of the directives have the same priority, they are sorted into
the same order again, so the invocations are the same up to that permutation.

## Main definitions

* `MovesWithin`: a permutation of numbers that moves only those in a range
* `Occurrence.count`: how many names a directive takes
* `Markup.Tag.Redirected`: tags with the same directives, which are given permuted names

## Main results

* `Occurrence.exists_permutes`: directives in another order take the same names, permuted
* `Markup.exists_redirected_of_perm`: their invocations are the same up to the permutation
-/

namespace Stencil

/-! ### Permutations of numbers -/

/-- A permutation that moves only numbers from `m` on and below `n`. -/
def MovesWithin (m n : Nat) (σ : Equiv.Perm Nat) : Prop :=
  ∀ k, σ k ≠ k → m ≤ k ∧ k < n

namespace MovesWithin

variable {k l m n : Nat} {σ τ : Equiv.Perm Nat}

theorem one : MovesWithin m n 1 := fun _ hmoved => absurd rfl hmoved

theorem mono (h : MovesWithin m n σ) (hm : k ≤ m) (hn : n ≤ l) : MovesWithin k l σ := by
  intro i hmoved
  obtain ⟨hle, hlt⟩ := h i hmoved
  omega

/-- Numbers outside of the range stay. -/
theorem apply_eq (h : MovesWithin m n σ) (hk : k < m ∨ n ≤ k) : σ k = k := by
  by_contra hmoved
  have := h k hmoved
  omega

theorem mul (h : MovesWithin m n σ) (h' : MovesWithin m n τ) : MovesWithin m n (σ * τ) := by
  intro i hmoved
  by_cases hτ : τ i = i
  · refine h i fun hσ => hmoved ?_
    rw [Equiv.Perm.mul_apply, hτ, hσ]
  · exact h' i hτ

end MovesWithin

/-- The number `k` after the block of `a` numbers from `n` on has changed places with the block of
`b` numbers behind it. -/
def exchangeNumber (n a b k : Nat) : Nat :=
  if k < n then k else if k < n + a then k + b else if k < n + a + b then k - a else k

theorem exchangeNumber_exchangeNumber (n a b k : Nat) :
    exchangeNumber n b a (exchangeNumber n a b k) = k := by
  unfold exchangeNumber
  split_ifs <;> omega

/-- The permutation by which two blocks of numbers next to each other change places. -/
def exchange (n a b : Nat) : Equiv.Perm Nat where
  toFun := exchangeNumber n a b
  invFun := exchangeNumber n b a
  left_inv := exchangeNumber_exchangeNumber n a b
  right_inv := exchangeNumber_exchangeNumber n b a

theorem movesWithin_exchange (n a b : Nat) : MovesWithin n (n + a + b) (exchange n a b) := by
  intro k hmoved
  change exchangeNumber n a b k ≠ k at hmoved
  unfold exchangeNumber at hmoved
  split_ifs at hmoved <;> omega

theorem exchange_first {n a b k : Nat} (h : n ≤ k) (h' : k < n + a) :
    exchange n a b k = k + b := by
  change exchangeNumber n a b k = k + b
  unfold exchangeNumber
  split_ifs <;> omega

theorem exchange_second {n a b k : Nat} (h : n + a ≤ k) (h' : k < n + a + b) :
    exchange n a b k = k - a := by
  change exchangeNumber n a b k = k - a
  unfold exchangeNumber
  split_ifs <;> omega

/-! ### Names that directives take -/

namespace Occurrence

/-- The number of names that a directive takes. -/
def count (o : Occurrence) : Nat :=
  -- A test that has a name and an unwrap without a condition take none.
  match o.directive with
  | .test => if o.call.identifier?.isSome then 0 else 1
  | .list | .repeated | .call => 2
  | .insertion | .resource | .element | .attr | .text => 1
  | .unwrap => if o.source.expression.root.isNull then 0 else 1
  | _ => 0

theorem after_eq (o : Occurrence) (n : Nat) : o.after n = n + o.count := by
  obtain ⟨directive, ⟨name, arguments⟩, source⟩ := o
  cases directive with
  | set | test => cases arguments <;> rfl
  | template =>
    cases arguments with
    | nil => rfl
    | cons first rest =>
      simp only [after, invocation, Directive.draft, Directive.draftTemplate,
        Directive.draftIdentifier, Markup.DirectiveCall.identifier?, List.head?_cons, pure_bind]
      split <;> rfl
  | unwrap =>
    simp only [after, invocation, Directive.draft, count]
    split <;> rfl
  | _ => rfl

/-- A directive without its location. -/
def unplaced (o : Occurrence) : Occurrence :=
  { o with source := ⟨o.source.expression, .nowhere⟩ }

theorem count_unplaced (o : Occurrence) : o.unplaced.count = o.count := rfl

/-- The number of names that directives take. -/
def total (found : List Occurrence) : Nat :=
  (found.map count).sum

theorem total_cons (o : Occurrence) (rest : List Occurrence) :
    total (o :: rest) = o.count + total rest := List.sum_cons

theorem total_map_unplaced (found : List Occurrence) :
    total (found.map unplaced) = total found := by
  rw [total, List.map_map]
  rfl

/-- Directives with the numbers of the names that they take, `n` names having been made before. -/
def allotted (n : Nat) (found : List Occurrence) : List (Occurrence × List Nat) :=
  (numbered n found).map fun x => (x.1, List.range' x.2 x.1.count)

theorem map_fst_allotted (n : Nat) (found : List Occurrence) :
    (allotted n found).map Prod.fst = found := by
  rw [allotted, List.map_map]
  exact map_fst_numbered n found

theorem allotted_cons (n : Nat) (o : Occurrence) (rest : List Occurrence) :
    allotted n (o :: rest) = (o, List.range' n o.count) :: allotted (n + o.count) rest := by
  rw [allotted, numbered, after_eq]
  rfl

theorem lt_of_mem_allotted {n : Nat} {found : List Occurrence} :
    ∀ x ∈ allotted n found, ∀ k ∈ x.2, n ≤ k ∧ k < n + total found := by
  induction found generalizing n with
  | nil => exact fun x hx => absurd hx List.not_mem_nil
  | cons o rest ih =>
    intro x hx k hk
    rw [allotted_cons] at hx
    rw [total_cons]
    rcases List.mem_cons.1 hx with rfl | hx
    · have := List.mem_range'_1.1 hk
      omega
    · have := ih x hx k hk
      omega

/-- Directives in another order take the same names, permuted by `σ`. -/
structure Permutes (n : Nat) (found others : List Occurrence) (σ : Equiv.Perm Nat) : Prop where
  within : MovesWithin n (n + total found) σ
  perm : (allotted n others).Perm ((allotted n found).map fun x => (x.1, x.2.map σ))

/-- A permutation that moves nothing of what directives take leaves the numbers as they are. -/
theorem map_allotted_eq_self {n : Nat} {found : List Occurrence} {σ : Nat → Nat}
    (h : ∀ k, n ≤ k → k < n + total found → σ k = k) :
    (allotted n found).map (fun x => (x.1, x.2.map σ)) = allotted n found := by
  have hself : ∀ x ∈ allotted n found, (x.1, x.2.map σ) = x := by
    intro x hx
    have hnumbers : x.2.map σ = x.2.map id := List.map_congr_left fun k hk => by
      obtain ⟨hle, hlt⟩ := lt_of_mem_allotted x hx k hk
      exact h k hle hlt
    rw [hnumbers, List.map_id]
  rw [List.map_congr_left hself]
  exact List.map_id' _

end Occurrence

/-- A function that moves a range of numbers as a block. -/
theorem map_range'_eq {f : Nat → Nat} {m n c : Nat} (h : ∀ j < c, f (n + j) = m + j) :
    (List.range' n c).map f = List.range' m c := by
  refine List.ext_getElem (by simp) fun j hj _ => ?_
  have hlt : j < c := by simpa using hj
  simp [h j hlt]

namespace Occurrence

variable {n : Nat} {found others last : List Occurrence} {σ τ : Equiv.Perm Nat}

theorem Permutes.cons (o : Occurrence) (h : Permutes (n + o.count) found others σ) :
    Permutes n (o :: found) (o :: others) σ := by
  constructor
  · refine h.within.mono (by omega) ?_
    rw [total_cons]
    omega
  · -- The first directive takes numbers before all those that move.
    have hfirst : (List.range' n o.count).map σ = List.range' n o.count :=
      map_range'_eq fun j hj => h.within.apply_eq (.inl (by omega))
    rw [allotted_cons, allotted_cons, List.map_cons, hfirst]
    exact h.perm.cons _

theorem permutes_exchange (o p : Occurrence) (rest : List Occurrence) :
    Permutes n (o :: p :: rest) (p :: o :: rest) (exchange n o.count p.count) := by
  have hwithin := movesWithin_exchange n o.count p.count
  -- Each of the two moves by as many numbers as the other takes, and the rest stay.
  constructor
  · refine hwithin.mono (Nat.le_refl n) ?_
    rw [total_cons, total_cons]
    omega
  · have hfirst : (List.range' n o.count).map (exchange n o.count p.count) =
        List.range' (n + p.count) o.count := by
      refine map_range'_eq fun j hj => ?_
      rw [exchange_first (by omega) (by omega)]
      omega
    have hsecond : (List.range' (n + o.count) p.count).map (exchange n o.count p.count) =
        List.range' n p.count := by
      refine map_range'_eq fun j hj => ?_
      rw [exchange_second (by omega) (by omega)]
      omega
    have hrest : (allotted (n + o.count + p.count) rest).map
        (fun x => (x.1, x.2.map (exchange n o.count p.count))) =
          allotted (n + o.count + p.count) rest :=
      map_allotted_eq_self fun k hle _ => hwithin.apply_eq (.inr hle)
    simp only [allotted_cons, List.map_cons, hfirst, hsecond, hrest]
    rw [Nat.add_right_comm n p.count]
    exact List.Perm.swap _ _ _

theorem permutes_refl (n : Nat) (found : List Occurrence) : Permutes n found found 1 := by
  refine ⟨.one, List.Perm.of_eq ?_⟩
  exact (map_allotted_eq_self fun _ _ _ => rfl).symm

theorem Permutes.total_eq (h : Permutes n found others σ) : total others = total found := by
  have hperm := h.perm.map Prod.fst
  rw [List.map_map, map_fst_allotted] at hperm
  have hfound : (allotted n found).map (Prod.fst ∘ fun x => (x.1, x.2.map σ)) = found :=
    map_fst_allotted n found
  rw [hfound] at hperm
  exact (hperm.map count).sum_eq

theorem Permutes.trans (h : Permutes n found others σ) (h' : Permutes n others last τ) :
    Permutes n found last (τ * σ) := by
  constructor
  · have hτ := h'.within
    rw [h.total_eq] at hτ
    exact hτ.mul h.within
  · refine h'.perm.trans ((h.perm.map _).trans ?_)
    rw [List.map_map]
    refine List.Perm.of_eq (List.map_congr_left fun x _ => ?_)
    simp [Function.comp_def]

/-- Directives in another order take the same names, permuted. -/
theorem exists_permutes (h : found.Perm others) (n : Nat) : ∃ σ, Permutes n found others σ := by
  -- Every permutation is made of exchanges of two neighbours.
  induction h generalizing n with
  | nil => exact ⟨1, permutes_refl n []⟩
  | cons o _ ih =>
    obtain ⟨σ, hσ⟩ := ih (n + o.count)
    exact ⟨σ, hσ.cons o⟩
  | swap o p rest => exact ⟨_, permutes_exchange p o rest⟩
  | trans _ _ ih ih' =>
    obtain ⟨σ, hσ⟩ := ih n
    obtain ⟨τ, hτ⟩ := ih' n
    exact ⟨τ * σ, hσ.trans hτ⟩

/-! ### Invocations of the same directive -/

/-- The names of the procedures that a directive defines. -/
def procedures (o : Occurrence) : List String :=
  match o.directive, o.call.identifier? with
  | .template, some name => [name]
  | _, _ => []

/-- The names that an author gives by a directive, and those in its expression. -/
def names (o : Occurrence) : List String :=
  o.source.expression.names ++ (o.authorNames ++ o.procedures)

variable {ρ : String → String} {o other : Occurrence} {k l : Nat}

theorem exists_of_unplaced_eq (h : other.unplaced = o.unplaced) :
    ∃ there, other = ⟨o.directive, o.call, ⟨o.source.expression, there⟩⟩ := by
  obtain ⟨hdirective, hcall, hsource⟩ := Occurrence.mk.inj h
  obtain ⟨hexpression, -⟩ := Written.mk.inj hsource
  exact ⟨other.source.location, by rw [← hdirective, ← hcall, ← hexpression]⟩

/-- The variables of a loop with other names for those that are made. -/
theorem rename_loopNames {item : String} (hitem : ρ item = item)
    (hstatus : ρ (item ++ "List") = item ++ "List")
    (hgiven : ∀ j < 2, ρ (Session.symbol (k + j)) = Session.symbol (l + j)) :
    LoopNames.rename ρ ⟨Session.symbol k, item, Session.symbol (k + 1), item ++ "List"⟩ =
      ⟨Session.symbol l, item, Session.symbol (l + 1), item ++ "List"⟩ := by
  have hlist : ρ (Session.symbol k) = Session.symbol l := hgiven 0 Nat.two_pos
  have hindex : ρ (Session.symbol (k + 1)) = Session.symbol (l + 1) := hgiven 1 Nat.one_lt_two
  simp only [LoopNames.rename, hitem, hstatus, hlist, hindex]

/-- The invocations of the same directive, with the names that are given to it. -/
theorem alike_invocation (hprobe : o.directive.isProbe = false)
    (hsame : other.unplaced = o.unplaced) (hnames : ∀ name ∈ o.names, ρ name = name)
    (hgiven : ∀ j < o.count, ρ (Session.symbol (k + j)) = Session.symbol (l + j)) :
    (o.invocation.value k).Alike ρ (other.invocation.value l) := by
  obtain ⟨directive, ⟨name, arguments⟩, e, here⟩ := o
  obtain ⟨there, rfl⟩ := exists_of_unplaced_eq hsame
  obtain ⟨hexpression, hauthor⟩ := List.forall_mem_append.1 hnames
  obtain ⟨hauthor, hprocedures⟩ := List.forall_mem_append.1 hauthor
  obtain ⟨hgivenNames, hstatuses⟩ := List.forall_mem_append.1 hauthor
  obtain ⟨hitems, hassigned⟩ := List.forall_mem_append.1 hgivenNames
  obtain ⟨hitems, hparameters⟩ := List.forall_mem_append.1 hitems
  have hsource : Written.Alike ρ ⟨e, here⟩ ⟨e, there⟩ := .of_names rfl hexpression
  -- In each case the names of the author are kept, and the names made from `k` on become those
  -- from `l` on.
  cases directive with
  | probe => cases hprobe
  | use =>
    exact (Invocation.Alike.use hsource).of_eq
      (congrArg (Invocation.use · _) (hassigned _ List.mem_cons_self))
  | set =>
    cases arguments with
    | nil => exact .inert
    | cons first rest =>
      exact (Invocation.Alike.set hsource).of_eq
        (congrArg (Invocation.set · _) (hassigned _ List.mem_cons_self))
  | test =>
    cases arguments with
    | nil =>
      exact (Invocation.Alike.test hsource).of_eq
        (congrArg (Invocation.test · false _) (hgiven 0 Nat.one_pos))
    | cons first rest =>
      exact (Invocation.Alike.test hsource).of_eq
        (congrArg (Invocation.test · true _) (hassigned _ List.mem_cons_self))
  | template =>
    cases arguments with
    | nil => exact .inert
    | cons first rest =>
      rw [invocation, Directive.value_draft_template _ k rfl, invocation,
        Directive.value_draft_template _ l rfl]
      have hmap : e.options.names.map ρ = e.options.names.map id := List.map_congr_left hparameters
      have halike : Invocation.Alike ρ (.template first e.options.names here)
          (.template (ρ first) (e.options.names.map ρ) there) := .template
      rwa [hprocedures first List.mem_cons_self, hmap, List.map_id] at halike
  | list =>
    have hloop := rename_loopNames (hitems _ List.mem_cons_self)
      (hstatuses _ List.mem_cons_self) hgiven
    exact (Invocation.Alike.list hsource).of_eq (congrArg (Invocation.list · _) hloop)
  | repeated =>
    have hloop := rename_loopNames (hitems _ List.mem_cons_self)
      (hstatuses _ List.mem_cons_self) hgiven
    exact (Invocation.Alike.repeated hsource).of_eq (congrArg (Invocation.repeated · _) hloop)
  | call =>
    exact (Invocation.Alike.call hsource).of_eq
      (congrArg₂ (Invocation.call · · _) (hgiven 0 Nat.two_pos) (hgiven 1 Nat.one_lt_two))
  | insertion =>
    exact (Invocation.Alike.insertion hsource).of_eq
      (congrArg (Invocation.insertion _ · _) (hgiven 0 Nat.one_pos))
  | resource =>
    exact (Invocation.Alike.insertion hsource).of_eq
      (congrArg (Invocation.insertion _ · _) (hgiven 0 Nat.one_pos))
  | element =>
    exact (Invocation.Alike.element hsource).of_eq
      (congrArg (Invocation.element · _) (hgiven 0 Nat.one_pos))
  | attr =>
    exact (Invocation.Alike.attr hsource).of_eq
      (congrArg (Invocation.attr _ · _) (hgiven 0 Nat.one_pos))
  | text =>
    exact (Invocation.Alike.text hsource).of_eq
      (congrArg (Invocation.text · _) (hgiven 0 Nat.one_pos))
  | unwrap =>
    rw [invocation, Directive.value_draft_unwrap, invocation, Directive.value_draft_unwrap]
    cases hnull : e.root.isNull with
    | true => exact .unwrap
    | false =>
      have hname : ρ (Session.symbol k) = Session.symbol l :=
        hgiven 0 (by rw [count]; simp [hnull])
      exact (Invocation.Alike.unwrapIf hsource).of_eq
        (congrArg (fun name => Invocation.unwrap (some (name, _))) hname)

/-- The order of directives does not depend on where they stand, and not on their names. -/
theorem map_sort_numbered (n : Nat) (found : List Occurrence) (σ : Nat → Nat) :
    (Priority.sort (·.1.directive.priority) (numbered n found)).map
        (fun x => (x.1.unplaced, (List.range' x.2 x.1.count).map σ)) =
      Priority.sort (·.1.directive.priority)
        ((allotted n (found.map unplaced)).map fun x => (x.1, x.2.map σ)) := by
  have hallotted : (allotted n (found.map unplaced)).map (fun x => (x.1, x.2.map σ)) =
      (numbered n found).map fun x => (x.1.unplaced, (List.range' x.2 x.1.count).map σ) := by
    induction found generalizing n with
    | nil => rfl
    | cons o rest ih =>
      rw [List.map_cons, allotted_cons, List.map_cons, count_unplaced, ih, numbered, after_eq]
      rfl
  rw [hallotted]
  exact Priority.map_sort (fun x : Occurrence × Nat =>
    (x.1.unplaced, (List.range' x.2 x.1.count).map σ)) (·.1.directive.priority) (numbered n found)

/-- Directives that are sorted into the same order, with names that `σ` permutes. -/
theorem forall₂_alike {σ : Nat → Nat} {found others : List (Occurrence × Nat)}
    (hsame : others.map (fun x => (x.1.unplaced, List.range' x.2 x.1.count)) =
      found.map fun x => (x.1.unplaced, (List.range' x.2 x.1.count).map σ))
    (hprobe : ∀ x ∈ found, x.1.directive.isProbe = false)
    (hnames : ∀ x ∈ found, ∀ name ∈ x.1.names, ρ name = name)
    (hgiven : ∀ x ∈ found, ∀ k ∈ List.range' x.2 x.1.count,
      ρ (Session.symbol k) = Session.symbol (σ k)) :
    List.Forall₂ (Invocation.Alike ρ) (invocations found) (invocations others) := by
  induction found generalizing others with
  | nil =>
    rw [List.map_eq_nil_iff.1 hsame]
    exact .nil
  | cons x rest ih =>
    cases others with
    | nil => cases hsame
    | cons y rest' =>
      obtain ⟨hfirst, hrest⟩ := List.cons_eq_cons.1 hsame
      obtain ⟨hunplaced, hnumbers⟩ := Prod.mk.inj hfirst
      obtain ⟨hxprobe, hprobe⟩ := List.forall_mem_cons.1 hprobe
      obtain ⟨hxnames, hnames⟩ := List.forall_mem_cons.1 hnames
      obtain ⟨hxgiven, hgiven⟩ := List.forall_mem_cons.1 hgiven
      refine .cons (alike_invocation hxprobe hunplaced hxnames fun j hj => ?_)
        (ih hrest hprobe hnames hgiven)
      -- The names of both are the same block, seen through `σ`.
      have hcount : y.1.count = x.1.count := by
        rw [← count_unplaced, hunplaced, count_unplaced]
      have hnumber := congrArg (·[j]?) hnumbers
      simp only [hcount, List.getElem?_map, List.getElem?_range' hj, Option.map_some,
        Option.some.injEq, Nat.one_mul] at hnumber
      rw [hxgiven (x.2 + j) (List.mem_range'_1.2 (by omega)), hnumber]

end Occurrence

/-! ### Directives of a tag -/

/-- Items none of which have the same key are sorted into one order only. -/
theorem Priority.sort_eq_of_perm {α : Type} {key : α → Int} {items others : List α}
    (h : items.Perm others) (hdistinct : (items.map key).Nodup) :
    sort key items = sort key others := by
  refine List.Perm.eq_of_pairwise ?_ (pairwise_sort items) (pairwise_sort others)
    (((sort_perm items).trans h).trans (sort_perm others).symm)
  intro a b ha hb hle hge
  have ha' := (sort_perm items).mem_iff.1 ha
  have hb' := h.mem_iff.2 ((sort_perm others).mem_iff.1 hb)
  exact List.inj_on_of_nodup_map hdistinct ha' hb' (Int.le_antisymm hle hge)

namespace Markup

open Occurrence (Permutes allotted numbered total)

variable {registry : Registry} {tag other : Tag} {n : Nat}

theorem afterDirectives_eq (registry : Registry) (tag : Tag) :
    ∀ n, tag.afterDirectives registry n = n + total (occurrences registry tag.attributes) := by
  unfold Tag.afterDirectives
  refine draftInvocations_induct (fun _ => rfl) (fun o found d ih n => ?_)
    (fun _ _ _ _ ih => ih) tag.attributes
  rw [Occurrence.total_cons, ← Nat.add_assoc, ← o.after_eq]
  simp only [Draft.script_bind, Script.symbolsAfter_append, Draft.script_pure, Script.symbolsAfter]
  exact ih _

/-- The directives of the second tag are those of the first, and are given names that `σ`
permutes. -/
structure Tag.Redirected (registry : Registry) (n : Nat) (tag other : Tag) (σ : Equiv.Perm Nat) :
    Prop where
  within : MovesWithin n (tag.afterDirectives registry n) σ
  after : other.afterDirectives registry n = tag.afterDirectives registry n
  invocations : ∀ ρ : String → String,
    (∀ k, n ≤ k → k < tag.afterDirectives registry n →
      ρ (Session.symbol k) = Session.symbol (σ k)) →
    (∀ o ∈ Markup.occurrences registry tag.attributes, ∀ name ∈ o.names, ρ name = name) →
    List.Forall₂ (Invocation.Alike ρ) (tag.invocations registry n) (other.invocations registry n)

/-- The same directives are given names in another order. What they are sorted into has to be the
same. -/
theorem redirected_of_permutes (hregistry : registry.Unmarked) {σ : Equiv.Perm Nat}
    (h : Permutes n ((occurrences registry tag.attributes).map Occurrence.unplaced)
      ((occurrences registry other.attributes).map Occurrence.unplaced) σ)
    (hsorted : Priority.sort (·.1.directive.priority)
        (allotted n ((occurrences registry other.attributes).map Occurrence.unplaced)) =
      Priority.sort (·.1.directive.priority)
        ((allotted n ((occurrences registry tag.attributes).map Occurrence.unplaced)).map
          fun x => (x.1, x.2.map σ))) :
    Tag.Redirected registry n tag other σ := by
  have hwithin := h.within
  have htotal := h.total_eq
  rw [Occurrence.total_map_unplaced] at hwithin
  rw [Occurrence.total_map_unplaced, Occurrence.total_map_unplaced] at htotal
  refine ⟨?_, ?_, fun ρ hgiven hnames => ?_⟩
  · rwa [afterDirectives_eq]
  · rw [afterDirectives_eq, afterDirectives_eq, htotal]
  · have hmem : ∀ x ∈ Priority.sort (·.1.directive.priority)
        (numbered n (occurrences registry tag.attributes)),
        x ∈ numbered n (occurrences registry tag.attributes) :=
      fun x hx => (Priority.sort_perm _).mem_iff.1 hx
    have hfound : ∀ x ∈ numbered n (occurrences registry tag.attributes),
        x.1 ∈ occurrences registry tag.attributes := by
      intro x hx
      rw [← Occurrence.map_fst_numbered n (occurrences registry tag.attributes)]
      exact List.mem_map_of_mem hx
    have hother := Occurrence.map_sort_numbered n (occurrences registry other.attributes) id
    simp only [List.map_id, List.map_id_fun', Prod.mk.eta, id_eq] at hother
    unfold Tag.invocations
    rw [sort_draftInvocations, sort_draftInvocations]
    have hsame := hother.trans
      (hsorted.trans (Occurrence.map_sort_numbered n (occurrences registry tag.attributes) σ).symm)
    refine Occurrence.forall₂_alike hsame (fun x hx => ?_) (fun x hx => ?_) fun x hx k hk => ?_
    · exact isProbe_of_mem_occurrences hregistry _ _ (hfound x (hmem x hx))
    · exact hnames x.1 (hfound x (hmem x hx))
    · have hallotted : (x.1, List.range' x.2 x.1.count) ∈
          allotted n (occurrences registry tag.attributes) := List.mem_map_of_mem (hmem x hx)
      obtain ⟨hle, hlt⟩ := Occurrence.lt_of_mem_allotted _ hallotted k hk
      rw [← afterDirectives_eq] at hlt
      exact hgiven k hle hlt

/-- The same directives in the same order are given the same names. -/
theorem redirected_of_eq (hregistry : registry.Unmarked)
    (h : (occurrences registry other.attributes).map Occurrence.unplaced =
      (occurrences registry tag.attributes).map Occurrence.unplaced) :
    Tag.Redirected registry n tag other 1 := by
  refine redirected_of_permutes hregistry ?_ ?_
  · rw [h]
    exact Occurrence.permutes_refl n _
  · have hself : (allotted n ((occurrences registry tag.attributes).map Occurrence.unplaced)).map
        (fun x => (x.1, x.2.map (1 : Equiv.Perm Nat))) = _ :=
      Occurrence.map_allotted_eq_self fun _ _ _ => rfl
    rw [h, hself]

/-- The same directives in another order are given the same names in another order, if no two of
them have the same priority. -/
theorem exists_redirected_of_perm (hregistry : registry.Unmarked)
    (h : ((occurrences registry tag.attributes).map Occurrence.unplaced).Perm
      ((occurrences registry other.attributes).map Occurrence.unplaced))
    (hdistinct : ((occurrences registry tag.attributes).map (·.directive.priority)).Nodup) :
    ∃ σ, Tag.Redirected registry n tag other σ := by
  obtain ⟨σ, hσ⟩ := Occurrence.exists_permutes h n
  refine ⟨σ, redirected_of_permutes hregistry hσ ?_⟩
  refine (Priority.sort_eq_of_perm hσ.perm.symm ?_).symm
  have hkeys : ((allotted n ((occurrences registry tag.attributes).map Occurrence.unplaced)).map
      fun x => (x.1, x.2.map σ)).map (·.1.directive.priority) =
        (((allotted n ((occurrences registry tag.attributes).map Occurrence.unplaced)).map
          Prod.fst)).map (·.directive.priority) := by
    rw [List.map_map, List.map_map]
    rfl
  rw [hkeys, Occurrence.map_fst_allotted, List.map_map]
  exact hdistinct

end Markup

end Stencil
