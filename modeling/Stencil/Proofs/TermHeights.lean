import Stencil.Proofs.Compilation
import Stencil.Proofs.References
import Stencil.Proofs.WrittenExpressions

/-!
# How high terms are

The limit on nesting counts terms and negations inside each other. It does not count the links of a
chain: property accesses behind one term, conjunctions and disjunctions one after the other are read
by loops, and each of them puts one more term on top of what was there. So there is no bound on the
height of terms that are read. What the limit bounds is the number of levels, where a whole chain is
one, and with it the height in terms of the longest chain.

## Main definitions

* `Term.height`: how deep a pass over a term goes
* `Term.levels`: the height if each chain counts as one
* `Term.longestChain`: the number of links of the longest chain in a term

## Main results

* `Term.height_le_mul`: height, levels and chains
* `Derives.allows`: the levels of a term that the grammar derives
* `Expression.height_le_of_parse`: the height of terms that are read
* `Expression.height_unbounded`: no number bounds the height of all terms that are read
-/

namespace Stencil

/-- What the links of a chain are. -/
inductive Link where
  | access
  | conjunction
  | disjunction
  deriving DecidableEq

/-- The links that an operator makes. -/
def BinaryOperator.link? : BinaryOperator → Option Link
  | .and => some .conjunction
  | .or => some .disjunction
  | _ => none

namespace Term

/-- The link that a term is, behind its left part. -/
def link? : Term → Option Link
  | .property .. => some .access
  | .binary op _ _ => op.link?
  | _ => none

/-- Whether a link behind a term makes the chain longer that ends in the term. -/
def isContinuedBy (left : Term) (link? : Option Link) : Bool :=
  link?.isSome && left.link? = link?

/-- The number of links of the chain that a term ends; any other term is a chain of its own. -/
def links : Term → Nat
  | .property target _ => if target.isContinuedBy (some .access) then links target + 1 else 1
  | .binary op left _ => if left.isContinuedBy op.link? then links left + 1 else 1
  | .null => 1
  | .text _ => 1
  | .number _ => 1
  | .boolean _ => 1
  | .identifier _ => 1
  | .array _ => 1
  | .map _ => 1
  | .unary .. => 1
  | .choice .. => 1
  | .call .. => 1

mutual

/-- How deep a pass over a term goes: the number of terms inside each other. -/
def height : Term → Nat
  | .property target key => max (height target) (height key) + 1
  | .array items => heightOfItems items + 1
  | .map entries => heightOfEntries entries + 1
  | .unary _ operand => height operand + 1
  | .binary _ left right => max (height left) (height right) + 1
  | .choice condition yes no => max (height condition) (max (height yes) (height no)) + 1
  | .call _ arguments => heightOfItems arguments + 1
  | .null => 1
  | .text _ => 1
  | .number _ => 1
  | .boolean _ => 1
  | .identifier _ => 1

/-- The height of the highest of terms. -/
def heightOfItems : List Term → Nat
  | [] => 0
  | item :: rest => max (height item) (heightOfItems rest)

/-- The height of the highest of the values of entries. -/
def heightOfEntries : List (String × Term) → Nat
  | [] => 0
  | (_, value) :: rest => max (height value) (heightOfEntries rest)

end

mutual

/-- The height of a term if each chain counts as one. -/
def levels : Term → Nat
  | .property target key =>
    max (if target.isContinuedBy (some .access) then levels target else levels target + 1)
      (levels key + 1)
  | .array items => levelsOfItems items + 1
  | .map entries => levelsOfEntries entries + 1
  | .unary _ operand => levels operand + 1
  | .binary op left right =>
    max (if left.isContinuedBy op.link? then levels left else levels left + 1) (levels right + 1)
  | .choice condition yes no => max (levels condition) (max (levels yes) (levels no)) + 1
  | .call _ arguments => levelsOfItems arguments + 1
  | .null => 1
  | .text _ => 1
  | .number _ => 1
  | .boolean _ => 1
  | .identifier _ => 1

/-- The most levels that one of terms has. -/
def levelsOfItems : List Term → Nat
  | [] => 0
  | item :: rest => max (levels item) (levelsOfItems rest)

/-- The most levels that the value of one of entries has. -/
def levelsOfEntries : List (String × Term) → Nat
  | [] => 0
  | (_, value) :: rest => max (levels value) (levelsOfEntries rest)

end

mutual

/-- The number of links of the longest chain in a term. -/
def longestChain : Term → Nat
  | .property target key =>
    max (links (.property target key)) (max (longestChain target) (longestChain key))
  | .array items => longestChainOfItems items
  | .map entries => longestChainOfEntries entries
  | .unary _ operand => longestChain operand
  | .binary op left right =>
    max (links (.binary op left right)) (max (longestChain left) (longestChain right))
  | .choice condition yes no =>
    max (longestChain condition) (max (longestChain yes) (longestChain no))
  | .call _ arguments => longestChainOfItems arguments
  | .null => 1
  | .text _ => 1
  | .number _ => 1
  | .boolean _ => 1
  | .identifier _ => 1

/-- The number of links of the longest chain in terms. -/
def longestChainOfItems : List Term → Nat
  | [] => 1
  | item :: rest => max (longestChain item) (longestChainOfItems rest)

/-- The number of links of the longest chain in the values of entries. -/
def longestChainOfEntries : List (String × Term) → Nat
  | [] => 1
  | (_, value) :: rest => max (longestChain value) (longestChainOfEntries rest)

end

/-! ### Height and levels -/

/-- A term on top of parts that have as many levels as it allows. -/
theorem succ_add_le {height levels most : Nat} (h : height ≤ levels * most) :
    height + 1 + most ≤ 1 + (levels + 1) * most := by
  rw [Nat.succ_mul]
  omega

/-- One more link, or the first one, behind a left part. -/
theorem max_succ_add_le {left right links most leftLevels rightLevels : Nat} {continued : Bool}
    (hleft : left + most ≤ links + leftLevels * most) (hlinks : links ≤ most)
    (hright : right ≤ rightLevels * most) :
    max left right + 1 + most ≤ (if continued then links + 1 else 1) +
      max (if continued then leftLevels else leftLevels + 1) (rightLevels + 1) * most := by
  rw [← Nat.mul_max_mul_right]
  have hother := succ_add_le hright
  cases continued with
  | true => simp only [if_true]; omega
  | false =>
    have hfirst : left + 1 + most ≤ 1 + (leftLevels + 1) * most := succ_add_le (by omega)
    simp only [Bool.false_eq_true, if_false]
    omega

theorem one_le_links (t : Term) : 1 ≤ t.links := by
  cases t with
  | property target key =>
    rw [links]
    split <;> omega
  | binary op left right =>
    rw [links]
    split <;> omega
  | _ => exact Nat.le_refl 1

mutual

theorem links_le_longestChain (t : Term) : t.links ≤ t.longestChain := by
  cases t with
  | property target key =>
    rw [longestChain]
    exact Nat.le_max_left ..
  | binary op left right =>
    rw [longestChain]
    exact Nat.le_max_left ..
  | array items =>
    rw [links, longestChain]
    exact one_le_longestChainOfItems items
  | map entries =>
    rw [links, longestChain]
    exact one_le_longestChainOfEntries entries
  | unary op operand =>
    rw [links, longestChain]
    exact operand.one_le_links.trans (links_le_longestChain operand)
  | choice condition yes no =>
    rw [links, longestChain]
    have := condition.one_le_links.trans (links_le_longestChain condition)
    omega
  | call function arguments =>
    rw [links, longestChain]
    exact one_le_longestChainOfItems arguments
  | _ => rw [links, longestChain]

theorem one_le_longestChainOfItems (items : List Term) : 1 ≤ longestChainOfItems items := by
  cases items with
  | nil => rw [longestChainOfItems]
  | cons item rest =>
    rw [longestChainOfItems]
    have := one_le_longestChainOfItems rest
    omega

theorem one_le_longestChainOfEntries (entries : List (String × Term)) :
    1 ≤ longestChainOfEntries entries := by
  match entries with
  | [] => rw [longestChainOfEntries]
  | (name, value) :: rest =>
    rw [longestChainOfEntries]
    have := one_le_longestChainOfEntries rest
    omega

end

/-- A first level that adds at most the longest chain adds no more than the others. -/
theorem height_le_of_add_le {t : Term} {most : Nat} (h : t.longestChain ≤ most)
    (hheight : t.height + most ≤ t.links + t.levels * most) : t.height ≤ t.levels * most := by
  have hlinks := t.links_le_longestChain
  omega

mutual

/-- Each level but the first adds at most the links of a chain to the height. -/
theorem height_add_le {t : Term} {most : Nat} (h : t.longestChain ≤ most) :
    t.height + most ≤ t.links + t.levels * most := by
  cases t with
  | property target key =>
    rw [longestChain, Nat.max_le, Nat.max_le] at h
    rw [height, links, levels]
    exact max_succ_add_le (height_add_le h.2.1) (target.links_le_longestChain.trans h.2.1)
      (height_le_of_add_le h.2.2 (height_add_le h.2.2))
  | binary op left right =>
    rw [longestChain, Nat.max_le, Nat.max_le] at h
    rw [height, links, levels]
    exact max_succ_add_le (height_add_le h.2.1) (left.links_le_longestChain.trans h.2.1)
      (height_le_of_add_le h.2.2 (height_add_le h.2.2))
  | array items =>
    rw [longestChain] at h
    rw [height, links, levels]
    exact succ_add_le (heightOfItems_le_mul h)
  | map entries =>
    rw [longestChain] at h
    rw [height, links, levels]
    exact succ_add_le (heightOfEntries_le_mul h)
  | unary op operand =>
    rw [longestChain] at h
    rw [height, links, levels]
    exact succ_add_le (height_le_of_add_le h (height_add_le h))
  | choice condition yes no =>
    rw [longestChain, Nat.max_le, Nat.max_le] at h
    rw [height, links, levels]
    refine succ_add_le ?_
    simp only [← Nat.mul_max_mul_right]
    have hcondition := height_le_of_add_le h.1 (height_add_le h.1)
    have hyes := height_le_of_add_le h.2.1 (height_add_le h.2.1)
    have hno := height_le_of_add_le h.2.2 (height_add_le h.2.2)
    omega
  | call function arguments =>
    rw [longestChain] at h
    rw [height, links, levels]
    exact succ_add_le (heightOfItems_le_mul h)
  | _ => rw [height, links, levels, Nat.one_mul]

theorem heightOfItems_le_mul {items : List Term} {most : Nat}
    (h : longestChainOfItems items ≤ most) :
    heightOfItems items ≤ levelsOfItems items * most := by
  cases items with
  | nil =>
    rw [heightOfItems]
    exact Nat.zero_le _
  | cons item rest =>
    rw [longestChainOfItems, Nat.max_le] at h
    rw [heightOfItems, levelsOfItems, ← Nat.mul_max_mul_right]
    have hitem := height_le_of_add_le h.1 (height_add_le h.1)
    have hrest := heightOfItems_le_mul h.2
    omega

theorem heightOfEntries_le_mul {entries : List (String × Term)} {most : Nat}
    (h : longestChainOfEntries entries ≤ most) :
    heightOfEntries entries ≤ levelsOfEntries entries * most := by
  match entries with
  | [] =>
    rw [heightOfEntries]
    exact Nat.zero_le _
  | (name, value) :: rest =>
    rw [longestChainOfEntries, Nat.max_le] at h
    rw [heightOfEntries, levelsOfEntries, ← Nat.mul_max_mul_right]
    have hvalue := height_le_of_add_le h.1 (height_add_le h.1)
    have hrest := heightOfEntries_le_mul h.2
    omega

end

theorem height_le_mul {t : Term} {most : Nat} (h : t.longestChain ≤ most) :
    t.height ≤ t.levels * most :=
  height_le_of_add_le h (height_add_le h)

/-- The levels that a term has as the left part of a link, with the link. -/
def levelsBefore (link? : Option Link) (t : Term) : Nat :=
  if t.isContinuedBy link? then t.levels else t.levels + 1

theorem levels_le_levelsBefore (link? : Option Link) (t : Term) :
    t.levels ≤ t.levelsBefore link? := by
  rw [levelsBefore]
  split
  · exact Nat.le_refl _
  · exact Nat.le_succ _

theorem levelsBefore_le_succ (link? : Option Link) (t : Term) :
    t.levelsBefore link? ≤ t.levels + 1 := by
  rw [levelsBefore]
  split
  · exact Nat.le_succ _
  · exact Nat.le_refl _

theorem levelsBefore_property (target key : Term) :
    (target.property key).levelsBefore (some .access) =
      max (target.levelsBefore (some .access)) (key.levels + 1) := by
  rfl

theorem levelsBefore_and (left right : Term) :
    (Term.binary .and left right).levelsBefore (some .conjunction) =
      max (left.levelsBefore (some .conjunction)) (right.levels + 1) := by
  rfl

theorem levelsBefore_or (left right : Term) :
    (Term.binary .or left right).levelsBefore (some .disjunction) =
      max (left.levelsBefore (some .disjunction)) (right.levels + 1) := by
  rfl

theorem levels_comparison {op : BinaryOperator} (hop : op ≠ .and ∧ op ≠ .or) (left right : Term) :
    (Term.binary op left right).levels = max left.levels right.levels + 1 := by
  have hlink : op.link? = none := by
    cases op with
    | and => exact absurd rfl hop.1
    | or => exact absurd rfl hop.2
    | _ => rfl
  have hbefore : left.isContinuedBy op.link? = false := by
    rw [hlink]
    rfl
  rw [levels, hbefore]
  exact Nat.add_max_add_right ..

theorem levels_of_atom? {token : Token} {t : Term} (h : token.atom? = some t) : t.levels = 1 := by
  cases token <;> cases h <;> rfl

end Term

/-! ### The levels of derived terms -/

/-- What the limit on nesting says of the levels of a term in a part of the grammar. Where a chain
may go on, the next link is already counted. -/
def Category.Allows : Category → Nat → Term → Prop
  | .term, n, t => t.levels ≤ 6 * n
  | .disjunction, n, t => t.levelsBefore (some .disjunction) ≤ 6 * n + 5
  | .conjunction, n, t => t.levelsBefore (some .conjunction) ≤ 6 * n + 4
  | .comparison, n, t => t.levels ≤ 6 * n + 3
  | .unary, n, t => t.levels ≤ 6 * n + 2
  | .access, n, t => t.levelsBefore (some .access) ≤ 6 * n + 2
  | .primary, n, t => t.levels ≤ 6 * n + 1
  | .items, n, t => t.levels ≤ 6 * n + 1

/-- Each term inside another one costs at most six levels: one for the chain of each kind, for the
comparison, for the choice and for the array. A link adds no level to the chain on its left, so the
length of a chain does not matter. -/
theorem Derives.allows {k : Category} {n : Nat} {tokens : List Token} {t : Term}
    (h : Derives k n tokens t) : k.Allows n t := by
  -- Each category has its own budget above `6 * n`, and each rule stays within those of its parts.
  induction h with
  | @term n tokens t h ih =>
    have hlevels := t.levels_le_levelsBefore (some .disjunction)
    simp only [Category.Allows] at ih ⊢
    omega
  | @choice n _ _ _ condition yes no _ _ _ ihcondition ihyes ihno =>
    have hlevels := condition.levels_le_levelsBefore (some .disjunction)
    simp only [Category.Allows, Term.levels] at ihcondition ihyes ihno ⊢
    omega
  | @conjunction n tokens t h ih =>
    have hlevels := t.levels_le_levelsBefore (some .conjunction)
    have hbefore := t.levelsBefore_le_succ (some .disjunction)
    simp only [Category.Allows] at ih ⊢
    omega
  | @or n _ _ left right _ _ ihleft ihright =>
    have hlevels := right.levels_le_levelsBefore (some .conjunction)
    simp only [Category.Allows, Term.levelsBefore_or] at ihleft ihright ⊢
    omega
  | @comparison n tokens t h ih =>
    have hbefore := t.levelsBefore_le_succ (some .conjunction)
    simp only [Category.Allows] at ih ⊢
    omega
  | and _ _ ihleft ihright =>
    simp only [Category.Allows, Term.levelsBefore_and] at ihleft ihright ⊢
    omega
  | unary _ ih =>
    simp only [Category.Allows] at ih ⊢
    omega
  | compare hop _ _ ihleft ihright =>
    simp only [Category.Allows, Term.levels_comparison hop] at ihleft ihright ⊢
    omega
  | @access n tokens t h ih => exact (t.levels_le_levelsBefore (some .access)).trans ih
  | not _ ih =>
    simp only [Category.Allows, Term.levels] at ih ⊢
    omega
  | @primary n tokens t h ih =>
    have hbefore := t.levelsBefore_le_succ (some .access)
    simp only [Category.Allows] at ih ⊢
    omega
  | dotName _ _ ih | dotNumber _ _ ih =>
    simp only [Category.Allows, Term.levelsBefore_property, Term.levels] at ih ⊢
    omega
  | bracket _ _ ih ihkey =>
    simp only [Category.Allows, Term.levelsBefore_property] at ih ihkey ⊢
    omega
  | atom h =>
    rw [Category.Allows, Term.levels_of_atom? h]
    exact Nat.le_add_left ..
  | paren _ ih => exact Nat.le_succ_of_le ih
  | noItems => exact Nat.le_add_left ..
  | array _ ih => exact ih
  | item _ ih =>
    simp only [Category.Allows, Term.levels, Term.levelsOfItems] at ih ⊢
    omega
  | comma _ _ ih ihitems =>
    simp only [Category.Allows, Term.levels, Term.levelsOfItems] at ih ihitems ⊢
    omega

namespace Expression

/-- A name with a number of property accesses behind it. -/
def accesses : Nat → Term
  | 0 => .identifier "a"
  | n + 1 => .property (accesses n) (.text "b")

theorem printable_accesses (n : Nat) : (accesses n).Printable := by
  induction n with
  | zero => exact printable_identifier (by decide)
  | succ n ih =>
    rw [accesses, Term.Printable]
    refine ⟨⟨?_, ih⟩, trivial, fun name hname => ?_⟩
    · cases n <;> rfl
    · obtain rfl := Term.text.inj (Term.eq_text_of_dotted? hname)
      exact Lexes.identifier_iff.2 (by decide)

theorem nesting_accesses (n : Nat) : (accesses n).nesting = 0 := by
  induction n with
  | zero => rfl
  | succ n ih => exact ih

theorem height_accesses (n : Nat) : (accesses n).height = n + 1 := by
  induction n with
  | zero => rfl
  | succ n ih =>
    rw [accesses, Term.height, ih, Term.height]
    omega

theorem numbers_accesses (n : Nat) : (accesses n).numbers = [] := by
  induction n with
  | zero => rfl
  | succ n ih =>
    rw [accesses, Term.numbers, ih]
    rfl

/-- An expression that can be written and that fits is read from some text. -/
theorem exists_parse_of_fits {e : Expression} (he : e.Printable) (hfits : e.Fits)
    (here : Location) : ∃ body, parse here body = .ok e.withoutZeroSigns := by
  obtain ⟨placed, finish, hchars, hplaced⟩ := lexes_render he here
  have hread := ofTokens_tokens he hplaced finish
  rw [read?_of_fits hfits] at hread
  refine ⟨(e.root.render ++ renderOptions e.options).toList, ?_⟩
  rw [parse, hchars]
  exact hread

/-- Any number of accesses is read. -/
theorem exists_parse_accesses (n : Nat) (here : Location) :
    ∃ body, parse here body = .ok (ofRoot (accesses n)) := by
  have hnumbers : (ofRoot (accesses n)).numbers = [] := by
    rw [numbers, ofRoot, numbers_accesses]
    rfl
  have hsame : (ofRoot (accesses n)).withoutZeroSigns = ofRoot (accesses n) := by
    refine withoutZeroSigns_eq_self ?_
    rw [hnumbers]
    exact List.forall_mem_nil _
  have hprintable : (ofRoot (accesses n)).Printable :=
    ⟨⟨printable_accesses n, List.forall_mem_nil _⟩, List.forall_mem_nil _, .nil⟩
  have hfits : (ofRoot (accesses n)).Fits :=
    ⟨(nesting_accesses n).trans_lt (by decide), List.forall_mem_nil _⟩
  obtain ⟨body, hread⟩ := exists_parse_of_fits hprintable hfits here
  exact ⟨body, hread.trans (congrArg Except.ok hsame)⟩

/-- **Nesting and height.** Whatever the text, each term that is read has at most six levels for
each level of nesting that is allowed, if a whole chain counts as one level; so it is at most that
many times as high as the longest of its chains is long. -/
theorem height_le_of_parse {here : Location} {body : List Char} {e : Expression}
    (hread : parse here body = .ok e) :
    e.Forall fun t =>
      t.levels ≤ 6 * maxNesting ∧ t.height ≤ 6 * maxNesting * t.longestChain := by
  obtain ⟨tokens, -, hread⟩ := exists_of_bind_eq_ok hread
  have hlevels {t : Term} (h : t.levels ≤ 6 * maxNesting) :
      t.levels ≤ 6 * maxNesting ∧ t.height ≤ 6 * maxNesting * t.longestChain :=
    ⟨h, (Term.height_le_mul (Nat.le_refl _)).trans (Nat.mul_le_mul_right _ h)⟩
  exact (derived_of_ofTokens hread).forall (hlevels (by decide)) fun _ _ h => hlevels h.allows

/-- Two chains of four and of two links, each one level on top of names. -/
theorem height_le_of_parse_chains :
    ∃ e, parse .start "a.b.c[d].e @ in=f && g && h".toList = .ok e ∧
      (e.root.height, e.root.levels, e.root.longestChain) = (5, 2, 4) ∧
      e.Forall fun t =>
        t.levels ≤ 6 * maxNesting ∧ t.height ≤ 6 * maxNesting * t.longestChain := by
  obtain ⟨e, hread, hmeasures⟩ : ∃ e, parse .start "a.b.c[d].e @ in=f && g && h".toList = .ok e ∧
      (decide ((e.root.height, e.root.levels, e.root.longestChain) = (5, 2, 4))) = true :=
    exists_of_any (by decide +kernel)
  exact ⟨e, hread, of_decide_eq_true hmeasures, height_le_of_parse hread⟩

/-- The limit on nesting does not bound the height: accesses behind a name are read however many
they are. -/
theorem height_unbounded :
    ¬ ∃ bound, ∀ here body e, parse here body = .ok e → e.Forall fun t => t.height ≤ bound := by
  rintro ⟨bound, hbound⟩
  -- As many accesses as the bound allows levels make a term that is one level higher.
  obtain ⟨body, hread⟩ := exists_parse_accesses bound .start
  have hheight : (accesses bound).height ≤ bound := (hbound _ _ _ hread).1
  rw [height_accesses] at hheight
  omega

end Expression

end Stencil
