import Stencil.Proofs.Freshness
import Stencil.Proofs.ReorderedTrees

/-!
# Walks with directives in another order

If trees are the same up to locations and the order of directives on one element, the walk makes as
many names for both. The commands are the same, up to a permutation of the names that are given to
these directives. The names made for other elements, and for texts and attributes, stay.

## Main definitions

* `Node.names`: the names that an author writes in a tree
* `Node.owners`: the elements to whose directives the names made for a tree are given
* `Draft.Permuted`: drafts that are alike up to such a permutation

## Main results

* `Draft.Permuted.bind`: permutations of drafts one after the other
* `Markup.permuted_draftElement`: an element, its directives and its content
* `Markup.permuted_draftAll`: trees that stay the same but for the order of directives
-/

namespace Stencil

open Draft

/-! ### Names and their owners -/

/-- The number `k` belongs to the element at `spot`, if the numbers from `n` on belong to
`owners`. -/
def Owned (spot : Location) (n : Nat) (owners : List (Option Location)) (k : Nat) : Prop :=
  n ≤ k ∧ owners[k - n]? = some (some spot)

namespace Owned

variable {spot : Location} {k n : Nat} {owners more : List (Option Location)}

theorem lt (h : Owned spot n owners k) : k < n + owners.length := by
  obtain ⟨hle, howner⟩ := h
  obtain ⟨hlt, -⟩ := List.getElem?_eq_some_iff.1 howner
  omega

theorem append_left (h : Owned spot n owners k) : Owned spot n (owners ++ more) k := by
  have hlt := h.lt
  obtain ⟨hle, howner⟩ := h
  refine ⟨hle, ?_⟩
  rwa [List.getElem?_append_left (by omega)]

theorem append_right (h : Owned spot (n + owners.length) more k) :
    Owned spot n (owners ++ more) k := by
  obtain ⟨hle, howner⟩ := h
  refine ⟨by omega, ?_⟩
  rwa [List.getElem?_append_right (by omega), Nat.sub_sub]

theorem replicate {count : Nat} (hle : n ≤ k) (hlt : k < n + count) :
    Owned spot n (List.replicate count (some spot)) k :=
  ⟨hle, List.getElem?_replicate_of_lt (by omega)⟩

end Owned

/-- A permutation that moves only numbers that belong to the element at `spot`. -/
def MovesOwned (spot : Location) (n : Nat) (owners : List (Option Location))
    (σ : Equiv.Perm Nat) : Prop :=
  ∀ k, σ k ≠ k → Owned spot n owners k

namespace MovesOwned

variable {spot : Location} {k n : Nat} {owners more : List (Option Location)}
  {σ τ : Equiv.Perm Nat}

theorem one : MovesOwned spot n owners 1 := fun _ hmoved => absurd rfl hmoved

theorem movesWithin (h : MovesOwned spot n owners σ) : MovesWithin n (n + owners.length) σ :=
  fun k hmoved => ⟨(h k hmoved).1, (h k hmoved).lt⟩

theorem append_right (h : MovesOwned spot (n + owners.length) more σ) :
    MovesOwned spot n (owners ++ more) σ :=
  fun k hmoved => (h k hmoved).append_right

/-- Permutations of numbers that follow each other. -/
theorem mul (h : MovesOwned spot n owners σ) (h' : MovesOwned spot (n + owners.length) more τ) :
    MovesOwned spot n (owners ++ more) (σ * τ) := by
  intro k hmoved
  by_cases hk : τ k = k
  · refine (h k fun hσ => hmoved ?_).append_left
    rw [Equiv.Perm.mul_apply, hk, hσ]
  · exact (h' k hk).append_right

theorem mul_apply_of_lt (h' : MovesOwned spot (n + owners.length) more τ)
    (hk : k < n + owners.length) : (σ * τ) k = σ k := by
  rw [Equiv.Perm.mul_apply, h'.movesWithin.apply_eq (.inl hk)]

theorem mul_apply_of_le (h : MovesOwned spot n owners σ)
    (h' : MovesOwned spot (n + owners.length) more τ) (hk : n + owners.length ≤ k) :
    (σ * τ) k = τ k := by
  rw [Equiv.Perm.mul_apply]
  -- The second permutation keeps the numbers on their side, where the first moves none.
  by_cases hmoved : τ k = k
  · rw [hmoved, h.movesWithin.apply_eq (.inr hk)]
  · have hside := (h' (τ k) fun heq => hmoved (τ.injective heq)).1
    exact h.movesWithin.apply_eq (.inr hside)

end MovesOwned

/-! ### Drafts up to a permutation -/

namespace Draft

/-- From `n` names on, whose owners are given, the second draft writes the commands of the first, up
to locations and a permutation of the names that belong to the element at `spot`. -/
structure Permuted (spot : Location) (n : Nat) (owners : List (Option Location))
    (d d' : Draft Unit) : Prop where
  symbols : (d.script n).symbolsAfter n = n + owners.length
  permutation : ∃ σ : Equiv.Perm Nat, MovesOwned spot n owners σ ∧
    ∀ τ : Nat → Nat, (∀ k, n ≤ k → k < n + owners.length → τ k = σ k) →
      Alike (Session.renamed τ) n d d'

namespace Permuted

variable {spot : Location} {n : Nat} {owners more : List (Option Location)}
  {d d' e e' : Draft Unit}

theorem done : Permuted spot n [] (pure ()) (pure ()) :=
  ⟨rfl, 1, .one, fun _ _ => .done⟩

/-- Drafts whose names belong to no directives. -/
theorem of_unmoved (h : ∀ τ, Unmoved (Session.renamed τ) d d') :
    Permuted spot n (List.replicate ((d.script n).symbolsAfter n - n) none) d d' := by
  have hle := Script.le_symbolsAfter (d.script n) n
  refine ⟨by rw [List.length_replicate]; omega, 1, .one, fun τ hτ => h τ n fun k hk hlt => ?_⟩
  rw [List.length_replicate] at hτ
  rw [Session.renamed_symbol, hτ k hk (by omega)]
  rfl

theorem bind (hd : Permuted spot n owners d d') (he : Permuted spot (n + owners.length) more e e') :
    Permuted spot n (owners ++ more) (d >>= fun _ => e) (d' >>= fun _ => e') := by
  obtain ⟨hsymbols, σ, hσ, hfirst⟩ := hd
  obtain ⟨hmore, τ, hτ, hsecond⟩ := he
  -- Each of the two permutations keeps the numbers that the other draft makes.
  refine ⟨?_, σ * τ, hσ.mul hτ, fun υ hυ => ?_⟩
  · rw [script_bind, Script.symbolsAfter_append, hsymbols, hmore, List.length_append,
      Nat.add_assoc]
  · rw [List.length_append] at hυ
    refine (hfirst υ fun k hle hlt => ?_).bind ?_
    · rw [hυ k hle (by omega), hτ.mul_apply_of_lt hlt]
    · rw [hsymbols]
      refine hsecond υ fun k hle hlt => ?_
      rw [hυ k (by omega) (by omega), hσ.mul_apply_of_le hτ hle]

end Permuted

end Draft

namespace Markup

/-! ### Names that authors write -/

mutual

/-- The names that an author writes in a node: those in expressions, and those that directives give
to variables and procedures. -/
def Node.names (registry : Registry) : Node → List String
  | .text text here => textNames text here
  | .comment text here => if isAuthorComment text then [] else textNames text (here.shift 4)
  | .element tag children =>
    tag.attributes.flatMap Attribute.names ++
      ((occurrences registry tag.attributes).flatMap (fun o => o.givenNames ++ o.procedures) ++
        namesIn registry children)

/-- The names that an author writes in nodes. -/
def namesIn (registry : Registry) : List Node → List String
  | [] => []
  | node :: rest => node.names registry ++ namesIn registry rest

end

/-- The names that an author writes in a template. -/
def Template.names (registry : Registry) (template : Template) : List String :=
  namesIn registry template.children

mutual

/-- The owners of the names made for a node, from `n` names on. Names that directives are given
belong to the element at its location; names that hold the values of texts and attributes belong to
none. -/
def Node.owners (filters : Pipeline) (registry : Registry) : Node → Nat → List (Option Location)
  | .text text here, n =>
    List.replicate
      (((draftInterpolated filters text here none).script n).symbolsAfter n - n) none
  | .comment text here, n =>
    List.replicate (((draftComment filters text here).script n).symbolsAfter n - n) none
  | .element tag children, n =>
    List.replicate (tag.afterDirectives registry n - n) (some tag.location) ++
      (List.replicate (tag.afterStart filters registry n - tag.afterDirectives registry n) none ++
        if tag.replaces registry n then []
        else ownersIn filters registry children (tag.afterStart filters registry n))

/-- The owners of the names made for nodes, from `n` names on. -/
def ownersIn (filters : Pipeline) (registry : Registry) :
    List Node → Nat → List (Option Location)
  | [], _ => []
  | node :: rest, n =>
    node.owners filters registry n ++
      ownersIn filters registry rest (n + (node.owners filters registry n).length)

end

/-- The owners of the names made for a template, in the order of their numbers. -/
def Template.owners (filters : Pipeline) (registry : Registry) (template : Template) :
    List (Option Location) :=
  ownersIn filters registry template.children 0

/-! ### Trees with directives in another order -/

section

variable {filters : Pipeline} {registry : Registry} {spot : Location} {n : Nat}

theorem unmoved_draftComment {ρ : String → String} (hfilters : filters ⊆ .builtin) {text : String}
    {here : Location} (hnames : ∀ name ∈ Node.names registry (.comment text here), ρ name = name)
    (there : Location) :
    Unmoved ρ (draftComment filters text here) (draftComment filters text there) := by
  unfold draftComment
  rw [Node.names] at hnames
  by_cases hauthor : isAuthorComment text = true
  · rw [if_pos hauthor, if_pos hauthor]
    exact .done
  · rw [if_neg hauthor] at hnames
    rw [if_neg hauthor, if_neg hauthor]
    exact (Unmoved.text _).bind
      ((unmoved_draftInterpolated hfilters hnames _ _).bind (.text _))

/-- The names that a directive on an element holds are no names that the compiler makes, if those
that the author writes there are not. -/
theorem Occurrence.names_ne_symbol {attributes : List Attribute}
    (hwritten : ∀ name ∈ attributes.flatMap Attribute.names, ∀ n, name ≠ Session.symbol n)
    (hgiven : ∀ name ∈ (occurrences registry attributes).flatMap
      (fun o => o.givenNames ++ o.procedures), ∀ n, name ≠ Session.symbol n)
    {o : Occurrence} (ho : o ∈ occurrences registry attributes) :
    ∀ name ∈ o.names, ∀ n, name ≠ Session.symbol n := by
  have hdirective : ∀ name ∈ o.givenNames ++ o.procedures, ∀ n, name ≠ Session.symbol n :=
    fun name hname => hgiven name (List.mem_flatMap.2 ⟨o, ho, hname⟩)
  intro name hname m
  rcases List.mem_append.1 hname with hname | hname
  · -- The expression is the value of an attribute.
    obtain ⟨attr, hattr, hfound⟩ := List.mem_filterMap.1 ho
    refine hwritten name (List.mem_flatMap.2 ⟨attr, hattr, ?_⟩) m
    split at hfound
    · next call e hvalue =>
      obtain ⟨directive, -, rfl⟩ := Option.map_eq_some_iff.1 hfound
      rw [Attribute.names, hvalue]
      exact hname
    · cases hfound
  · rcases List.mem_append.1 hname with hname | hname
    · rcases List.mem_append.1 hname with hname | hstatus
      · exact hdirective name (List.mem_append_left _ hname) m
      · -- The status of a loop has a name that the author does not write.
        obtain ⟨item, -, rfl⟩ := List.mem_map.1 hstatus
        intro heq
        refine Session.lower_status_ne_symbol item m ?_
        rw [heq, Session.lower_symbol]
    · exact hdirective name (List.mem_append_right _ hname) m

/-- The directives of an element move only names that belong to it. -/
theorem Tag.Changed.exists_movesOwned {tag other : Tag} (h : tag.Changed registry spot other)
    (hregistry : registry.Unmarked) (n : Nat) :
    ∃ σ, Tag.Redirected registry n tag other σ ∧
      MovesOwned spot n
        (List.replicate (tag.afterDirectives registry n - n) (some tag.location)) σ := by
  obtain ⟨σ, hredirected, hspot⟩ := h.exists_redirected hregistry n
  refine ⟨σ, hredirected, fun k hmoved => ?_⟩
  have hne : σ ≠ 1 := by
    intro heq
    rw [heq] at hmoved
    exact hmoved rfl
  obtain ⟨hle, hlt⟩ := hredirected.within k hmoved
  rw [hspot hne]
  exact .replicate hle (by omega)

/-- The content of an element, if it is written. -/
theorem exists_movesOwned_content {tag : Tag} {content content' : Draft Unit}
    {inside : List (Option Location)}
    (hcontent : tag.replaces registry n = false →
      Permuted spot (tag.afterStart filters registry n) inside content content') :
    ∃ τ, MovesOwned spot (tag.afterStart filters registry n)
        (if tag.replaces registry n then [] else inside) τ ∧
      ((draftElement filters registry tag content).script n).symbolsAfter n =
        tag.afterStart filters registry n +
          (if tag.replaces registry n then [] else inside).length ∧
      (tag.replaces registry n = false → ∀ υ : Nat → Nat,
        (∀ k, tag.afterStart filters registry n ≤ k →
          k < tag.afterStart filters registry n + inside.length → υ k = τ k) →
        Alike (Session.renamed υ) (tag.afterStart filters registry n) content content') := by
  rw [symbolsAfter_draftElement]
  -- Content that is replaced makes no names, so that nothing has to be moved for it.
  cases hreplaces : tag.replaces registry n with
  | true => exact ⟨1, .one, rfl, nofun⟩
  | false =>
    obtain ⟨hsymbols, τ, hτ, halike⟩ := hcontent hreplaces
    exact ⟨τ, hτ, hsymbols, fun _ => halike⟩

/-- An element whose directives may come in another order. The names of the directives come first,
then those made in the start tag, then those of the content. -/
theorem permuted_draftElement (hregistry : registry.Unmarked) (hfilters : filters ⊆ .builtin)
    {tag other : Tag} (htag : tag.Changed registry spot other)
    (hwritten : ∀ name ∈ tag.attributes.flatMap Attribute.names, ∀ n, name ≠ Session.symbol n)
    (hgiven : ∀ name ∈ (occurrences registry tag.attributes).flatMap
      (fun o => o.givenNames ++ o.procedures), ∀ n, name ≠ Session.symbol n)
    {content content' : Draft Unit} {inside : List (Option Location)}
    (hcontent : tag.replaces registry n = false →
      Permuted spot (tag.afterStart filters registry n) inside content content') :
    Permuted spot n
      (List.replicate (tag.afterDirectives registry n - n) (some tag.location) ++
        (List.replicate (tag.afterStart filters registry n - tag.afterDirectives registry n) none ++
          if tag.replaces registry n then [] else inside))
      (draftElement filters registry tag content)
      (draftElement filters registry other content') := by
  have hle := le_afterDirectives registry tag n
  have hle' := le_afterStart filters registry tag n
  obtain ⟨σ, hredirected, hσ⟩ := htag.exists_movesOwned hregistry n
  obtain ⟨τ, hτ, hsymbols, halike⟩ := exists_movesOwned_content hcontent
  have hdirectives : n + (List.replicate (tag.afterDirectives registry n - n)
      (some tag.location)).length = tag.afterDirectives registry n := by
    rw [List.length_replicate]
    omega
  have hstart : tag.afterDirectives registry n + (List.replicate
      (tag.afterStart filters registry n - tag.afterDirectives registry n)
      (none : Option Location)).length = tag.afterStart filters registry n := by
    rw [List.length_replicate]
    omega
  generalize List.replicate (tag.afterDirectives registry n - n) (some tag.location) =
    ofDirectives at hσ hdirectives ⊢
  generalize List.replicate (tag.afterStart filters registry n - tag.afterDirectives registry n)
    (none : Option Location) = ofStart at hstart ⊢
  -- The content moves none of the names that come before it.
  have hlater : MovesOwned spot (n + ofDirectives.length)
      (ofStart ++ if tag.replaces registry n then [] else inside) τ := by
    refine .append_right ?_
    rwa [hdirectives, hstart]
  refine ⟨?_, σ * τ, hσ.mul hlater, fun υ hυ => ?_⟩
  · rw [hsymbols, List.length_append, List.length_append]
    omega
  rw [List.length_append, List.length_append] at hυ
  have hkept : ∀ name, (∀ n, name ≠ Session.symbol n) → Session.renamed υ name = name :=
    fun name hname => Session.renamed_of_ne hname υ
  refine alike_draftElement hfilters htag.like (fun attr hattr name hname => ?_) hredirected.after
    (hredirected.invocations _ (fun k hk hlt => ?_) fun o ho name hname => ?_)
    (fun k hk hlt => ?_) fun hreplaces => ?_
  · exact hkept name (hwritten name (List.mem_flatMap.2 ⟨attr, hattr, hname⟩))
  · rw [Session.renamed_symbol, hυ k hk (by omega), hlater.mul_apply_of_lt (by omega)]
  · exact hkept name (Occurrence.names_ne_symbol hwritten hgiven ho name hname)
  · rw [Session.renamed_symbol, hυ k (by omega) (by omega), hσ.mul_apply_of_le hlater (by omega),
      hτ.movesWithin.apply_eq (.inl hlt)]
  · refine halike hreplaces υ fun k hk hlt => ?_
    rw [hreplaces] at hυ
    rw [hυ k (by omega) (by simp only [Bool.false_eq_true, if_false]; omega),
      hσ.mul_apply_of_le hlater (by omega)]

mutual

/-- A node that stays the same but for locations and the order of directives at `spot`. -/
theorem Node.permuted_draft (hregistry : registry.Unmarked) (hfilters : filters ⊆ .builtin) :
    ∀ (node other : Node), node.Changed registry spot other →
      (∀ name ∈ node.names registry, ∀ n, name ≠ Session.symbol n) → ∀ n,
      Permuted spot n (node.owners filters registry n) (node.draft filters registry)
        (other.draft filters registry)
  | .text text here, _, h, hnames, n => by
    cases h with
    | text _ _ there =>
      rw [Node.names] at hnames
      rw [Node.owners, Node.draft, Node.draft]
      exact .of_unmoved fun τ => unmoved_draftInterpolated hfilters
        (fun name hname => Session.renamed_of_ne (hnames name hname) τ) there none
  | .comment text here, _, h, hnames, n => by
    cases h with
    | comment _ _ there =>
      rw [Node.owners, Node.draft, Node.draft]
      exact .of_unmoved fun τ => unmoved_draftComment hfilters
        (fun name hname => Session.renamed_of_ne (hnames name hname) τ) there
  | .element tag children, _, h, hnames, n => by
    cases h with
    | element htag hchildren =>
      rw [Node.names] at hnames
      obtain ⟨hwritten, hnames⟩ := List.forall_mem_append.1 hnames
      obtain ⟨hgiven, hinside⟩ := List.forall_mem_append.1 hnames
      rw [Node.owners, Node.draft, Node.draft]
      exact permuted_draftElement hregistry hfilters htag hwritten hgiven fun _ =>
        permuted_draftAll hregistry hfilters children _ hchildren hinside _

/-- Nodes that stay the same but for locations and the order of directives at `spot`. -/
theorem permuted_draftAll (hregistry : registry.Unmarked) (hfilters : filters ⊆ .builtin) :
    ∀ nodes others : List Node, List.Forall₂ (Node.Changed registry spot) nodes others →
      (∀ name ∈ namesIn registry nodes, ∀ n, name ≠ Session.symbol n) → ∀ n,
      Permuted spot n (ownersIn filters registry nodes n) (draftAll filters registry nodes)
        (draftAll filters registry others)
  | [], _, h, _, n => by
    cases h with
    | nil =>
      rw [ownersIn, draftAll]
      exact .done
  | node :: rest, _, h, hnames, n => by
    cases h with
    | cons hnode hrest =>
      rw [namesIn] at hnames
      obtain ⟨hfirst, hothers⟩ := List.forall_mem_append.1 hnames
      rw [ownersIn, draftAll, draftAll]
      exact (Node.permuted_draft hregistry hfilters node _ hnode hfirst n).bind
        (permuted_draftAll hregistry hfilters rest _ hrest hothers _)

end

end

end Markup

end Stencil
