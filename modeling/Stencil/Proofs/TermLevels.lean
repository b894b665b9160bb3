import Stencil.Proofs.TermReading

/-!
# Levels of nesting

The readers give back the term whose tokens they are given if the levels suffice. A term needs a
level for each negation, for each pair of parentheses or brackets around terms, and for each branch
of a choice. Where there are too few levels, that is what is reported.

## Main definitions

* `Term.nesting`: how many levels below its own a term needs
* `Term.withoutZeroSigns`: the term with zeros that have no sign, since the sign is not written

## Main results

* `Level.readsBack_ofDepth`: the readers of a level give a term back if it is not too deep for them
-/

namespace Stencil

namespace Term

mutual

/-- How many levels below its own a term needs. A condition is at the level of the choice, its
branches are one level below. -/
def nesting : Term → Nat
  | .null => 0
  | .text _ => 0
  | .number _ => 0
  | .boolean _ => 0
  | .identifier _ => 0
  | .property target key =>
    match dotted? key with
    | some _ => nesting target
    | none => max (nesting target) (nesting key + 1)
  | .array items => nestingOfItems items
  | .map _ => 0
  | .unary _ operand => nesting operand + 1
  | .binary _ left right => max (nesting left) (nesting right) + 1
  | .choice condition yes no =>
    max (nesting condition) (max (nesting yes) (nesting no) + 1) + 1
  | .call .. => 0

/-- How many levels items between brackets need. -/
def nestingOfItems : List Term → Nat
  | [] => 0
  | item :: rest => max (nesting item + 1) (nestingOfItems rest)

end

mutual

/-- The term with zeros that have no sign. -/
def withoutZeroSigns : Term → Term
  | .null => .null
  | .text value => .text value
  | .number value => .number value.withoutZeroSign
  | .boolean value => .boolean value
  | .identifier name => .identifier name
  | .property target key => .property (withoutZeroSigns target) (withoutZeroSigns key)
  | .array items => .array (withoutZeroSignsOfItems items)
  | .map entries => .map (withoutZeroSignsOfEntries entries)
  | .unary operator operand => .unary operator (withoutZeroSigns operand)
  | .binary operator left right =>
    .binary operator (withoutZeroSigns left) (withoutZeroSigns right)
  | .choice condition yes no =>
    .choice (withoutZeroSigns condition) (withoutZeroSigns yes) (withoutZeroSigns no)
  | .call function arguments => .call function (withoutZeroSignsOfItems arguments)

/-- The items with zeros that have no sign. -/
def withoutZeroSignsOfItems : List Term → List Term
  | [] => []
  | item :: rest => withoutZeroSigns item :: withoutZeroSignsOfItems rest

/-- The values of entries with zeros that have no sign. -/
def withoutZeroSignsOfEntries : List (String × Term) → List (String × Term)
  | [] => []
  | (name, value) :: rest => (name, withoutZeroSigns value) :: withoutZeroSignsOfEntries rest

end

mutual

/-- The numbers in a term. -/
def numbers : Term → List Binary64
  | .null => []
  | .text _ => []
  | .number value => [value]
  | .boolean _ => []
  | .identifier _ => []
  | .property target key => numbers target ++ numbers key
  | .array items => numbersOfItems items
  | .map entries => numbersOfEntries entries
  | .unary _ operand => numbers operand
  | .binary _ left right => numbers left ++ numbers right
  | .choice condition yes no => numbers condition ++ numbers yes ++ numbers no
  | .call _ arguments => numbersOfItems arguments

/-- The numbers in items. -/
def numbersOfItems : List Term → List Binary64
  | [] => []
  | item :: rest => numbers item ++ numbersOfItems rest

/-- The numbers in the values of entries. -/
def numbersOfEntries : List (String × Term) → List Binary64
  | [] => []
  | (_, value) :: rest => numbers value ++ numbersOfEntries rest

end

mutual

/-- Only the signs of zeros are taken away. -/
theorem withoutZeroSigns_eq_self {t : Term}
    (h : ∀ value ∈ t.numbers, value.isZero = true → value = .zero false) :
    t.withoutZeroSigns = t := by
  cases t with
  | number value =>
    have hvalue := h value (by rw [numbers]; exact List.mem_cons_self)
    rw [withoutZeroSigns, Binary64.withoutZeroSign]
    split
    next hzero => rw [hvalue hzero]
    · rfl
  | property target key =>
    rw [numbers, List.forall_mem_append] at h
    rw [withoutZeroSigns, withoutZeroSigns_eq_self h.1, withoutZeroSigns_eq_self h.2]
  | array items =>
    rw [numbers] at h
    rw [withoutZeroSigns, withoutZeroSignsOfItems_eq_self h]
  | map entries =>
    rw [numbers] at h
    rw [withoutZeroSigns, withoutZeroSignsOfEntries_eq_self h]
  | unary operator operand =>
    rw [numbers] at h
    rw [withoutZeroSigns, withoutZeroSigns_eq_self h]
  | binary operator left right =>
    rw [numbers, List.forall_mem_append] at h
    rw [withoutZeroSigns, withoutZeroSigns_eq_self h.1, withoutZeroSigns_eq_self h.2]
  | choice condition yes no =>
    rw [numbers, List.forall_mem_append, List.forall_mem_append] at h
    rw [withoutZeroSigns, withoutZeroSigns_eq_self h.1.1, withoutZeroSigns_eq_self h.1.2,
      withoutZeroSigns_eq_self h.2]
  | call function arguments =>
    rw [numbers] at h
    rw [withoutZeroSigns, withoutZeroSignsOfItems_eq_self h]
  | _ => rw [withoutZeroSigns]

theorem withoutZeroSignsOfItems_eq_self {items : List Term}
    (h : ∀ value ∈ numbersOfItems items, value.isZero = true → value = .zero false) :
    withoutZeroSignsOfItems items = items := by
  cases items with
  | nil => rw [withoutZeroSignsOfItems]
  | cons item items =>
    rw [numbersOfItems, List.forall_mem_append] at h
    rw [withoutZeroSignsOfItems, withoutZeroSigns_eq_self h.1, withoutZeroSignsOfItems_eq_self h.2]

theorem withoutZeroSignsOfEntries_eq_self {entries : List (String × Term)}
    (h : ∀ value ∈ numbersOfEntries entries, value.isZero = true → value = .zero false) :
    withoutZeroSignsOfEntries entries = entries := by
  match entries with
  | [] => rw [withoutZeroSignsOfEntries]
  | (name, value) :: entries =>
    rw [numbersOfEntries, List.forall_mem_append] at h
    rw [withoutZeroSignsOfEntries, withoutZeroSigns_eq_self h.1,
      withoutZeroSignsOfEntries_eq_self h.2]

end

/-- What can be read of a term with a number of levels. -/
def readAt? (levels : Nat) (t : Term) : Option Term :=
  if t.nesting < levels then some t.withoutZeroSigns else none

theorem eq_text_of_dotted? {key : Term} {name : String} (h : dotted? key = some name) :
    key = .text name := by
  cases key with
  | text value =>
    rw [dotted?] at h
    split at h
    · rw [Option.some.inj h]
    · cases h
  | _ => cases h

theorem readAt?_unary (n : Nat) (op : UnaryOperator) (operand : Term) :
    (Term.unary op operand).readAt? (n + 1) =
      (operand.readAt? n).bind fun operand => some (.unary op operand) := by
  simp only [readAt?, nesting, withoutZeroSigns, Nat.add_lt_add_iff_right]
  split <;> rfl

theorem readAt?_binary (n : Nat) (op : BinaryOperator) (left right : Term) :
    (Term.binary op left right).readAt? (n + 1) =
      (left.readAt? n).bind fun left => (right.readAt? n).bind fun right =>
        some (.binary op left right) := by
  simp only [readAt?, nesting, withoutZeroSigns, Nat.add_lt_add_iff_right, Nat.max_lt]
  by_cases hleft : left.nesting < n <;> by_cases hright : right.nesting < n <;>
    simp [hleft, hright]

theorem readAt?_choice (n : Nat) (condition yes no : Term) :
    (Term.choice condition yes no).readAt? (n + 2) =
      (condition.readAt? (n + 1)).bind fun condition => (yes.readAt? n).bind fun yes =>
        (no.readAt? n).bind fun no => some (.choice condition yes no) := by
  simp only [readAt?, nesting, withoutZeroSigns, Nat.add_lt_add_iff_right, Nat.max_lt]
  by_cases hcondition : condition.nesting < n + 1 <;> by_cases hyes : yes.nesting < n <;>
    by_cases hno : no.nesting < n <;> simp [hcondition, hyes, hno]

theorem mapM_readAt? (n : Nat) (items : List Term) :
    items.mapM (readAt? n) =
      if nestingOfItems items < n + 1 then some (withoutZeroSignsOfItems items) else none := by
  induction items with
  | nil => rfl
  | cons item items ih =>
    rw [List.mapM_cons, ih]
    simp only [readAt?, nestingOfItems, withoutZeroSignsOfItems, Nat.add_lt_add_iff_right, Nat.max_lt]
    by_cases hitem : item.nesting < n <;> by_cases hitems : nestingOfItems items < n + 1 <;>
      simp [hitem, hitems]

theorem readAt?_array (n : Nat) (items : List Term) :
    (Term.array items).readAt? (n + 1) =
      (items.mapM (readAt? n)).bind fun values => some (.array values) := by
  rw [mapM_readAt?, readAt?, nesting, withoutZeroSigns]
  by_cases hitems : nestingOfItems items < n + 1 <;> simp [hitems]

theorem readAt?_dotted {n : Nat} {target key : Term} {name : String}
    (hkey : dotted? key = some name) :
    (Term.property target key).readAt? n =
      (target.readAt? n).bind fun target => some (.property target (.text name)) := by
  obtain rfl := eq_text_of_dotted? hkey
  simp only [readAt?, nesting, hkey, withoutZeroSigns]
  split <;> rfl

theorem readAt?_property {n : Nat} {target key : Term} (hkey : dotted? key = none) :
    (Term.property target key).readAt? (n + 1) =
      (target.readAt? (n + 1)).bind fun target => (key.readAt? n).bind fun key =>
        some (.property target key) := by
  simp only [readAt?, nesting, hkey, withoutZeroSigns, Nat.max_lt, Nat.add_lt_add_iff_right]
  by_cases htarget : target.nesting < n + 1 <;> by_cases hkey : key.nesting < n <;>
    simp [htarget, hkey]

end Term

namespace TermReader

/-- A reader of terms gives back the terms that `levels` suffice for, also where they stand without
the parentheses around them. -/
structure ReadsTerms (levels : Nat) (term : TermReader) : Prop where
  single : ∀ {t : Term} {after : List Token}, t.Printable → after.head?.any Token.goesOn = false →
    Reads term t.tokens after (t.readAt? levels)
  binary : ∀ {op : BinaryOperator} {left right : Term} {after : List Token}, left.Printable →
    right.Printable → after.head?.any Token.goesOn = false →
    Reads term (left.tokens ++ .operator op :: right.tokens) after
      ((Term.binary op left right).readAt? (levels + 1))
  choice : ∀ {condition yes no : Term} {after : List Token}, condition.Printable → yes.Printable →
    no.Printable → after.head?.any Token.goesOn = false →
    Reads term (condition.tokens ++ .question :: (yes.tokens ++ .colon :: no.tokens)) after
      ((Term.choice condition yes no).readAt? (levels + 1))

/-- A reader of operands gives back the terms that `levels` suffice for. -/
def ReadsOperands (levels : Nat) (operand : TermReader) : Prop :=
  ∀ ⦃t : Term⦄ ⦃after : List Token⦄, t.Printable → after.head? ≠ some .dot →
    after.head? ≠ some .leftBracket → Reads operand t.tokens after (t.readAt? levels)

variable {n : Nat} {term operand : TermReader}

theorem head?_ne_of_goesOn {after : List Token} {token : Token} (htoken : token.goesOn = true)
    (hafter : after.head?.any Token.goesOn = false) : after.head? ≠ some token := by
  intro heq
  rw [heq, Option.any_some, htoken] at hafter
  cases hafter

/-- Without levels nothing is read. -/
theorem readsTerms_fail : ReadsTerms 0 fun c => c.fail .tooDeep := by
  have hfail {tokens after : List Token} : Reads (fun c => c.fail .tooDeep) tokens after none :=
    fun c _ => ⟨c.location, rfl⟩
  constructor
  · intro t after ht hafter
    exact hfail
  · intro op left right after hleft hright hafter
    rw [Term.readAt?_binary]
    exact hfail
  · intro condition yes no after hcondition hyes hno hafter
    have hnone : (Term.choice condition yes no).readAt? (0 + 1) = none := by
      rw [Term.readAt?, Term.nesting, if_neg]
      omega
    rw [hnone]
    exact hfail

/-- A level more: operands are read with all levels that are left, branches with one less. -/
theorem readsTerms_choice (hoperand : ReadsOperands (n + 1) operand) (hterm : ReadsTerms n term) :
    ReadsTerms (n + 1) (choice operand term) := by
  constructor
  · intro t after ht hafter
    have hread := hoperand ht (head?_ne_of_goesOn rfl hafter) (head?_ne_of_goesOn rfl hafter)
    exact reads_choice_of_disjunction
      (reads_disjunction_single hread fun _ => head?_ne_of_goesOn rfl hafter)
      (head?_ne_of_goesOn rfl hafter)
  · intro op left right after hleft hright hafter
    rw [Term.readAt?_binary]
    have hread := hoperand hright (head?_ne_of_goesOn rfl hafter) (head?_ne_of_goesOn rfl hafter)
    exact reads_choice_of_disjunction
      (reads_disjunction op (hoperand hleft nofun nofun) hread fun _ => head?_ne_of_goesOn rfl hafter)
      (head?_ne_of_goesOn rfl hafter)
  · intro condition yes no after hcondition hyes hno hafter
    rw [Term.readAt?_choice]
    exact reads_choice (reads_disjunction_single (hoperand hcondition nofun nofun) nofun)
      (hterm.single hyes rfl) (hterm.single hno hafter)

theorem reads_primary_literal {token : Token} {t : Term} {after : List Token}
    (hprimary : ∀ c : Cursor, c.advance.last.token = token → primary term c = .ok (t, c.advance)) :
    Reads (primary term) [token] after (some t) := by
  intro c hc
  obtain ⟨hadvance, htoken⟩ := Cursor.advance_of_tokens hc
  exact ⟨c.advance, hprimary c htoken, hadvance⟩

/-- The tokens of a term without an operator in front, whatever follows them. -/
theorem accesses_tokens (hterm : ReadsTerms n term) {t : Term} (ht : t.Printable)
    (hunary : t.isUnary = false) (after : List Token) :
    Accesses term t.tokens after (t.readAt? (n + 1)) := by
  cases t with
  | property target key =>
    rw [Term.Printable] at ht
    obtain ⟨⟨htarget, hprintable⟩, hkey, -⟩ := ht
    -- The target is read at the same level, and its properties are gathered in the same loop.
    have haccess := accesses_tokens hterm hprintable (Term.isUnary_of_isTarget htarget)
    rw [Term.tokens]
    cases hname : Term.dotted? key with
    | some name =>
      rw [Term.readAt?_dotted hname]
      exact .dot (isKey_identifier _) (haccess _)
    | none =>
      rw [Term.readAt?_property hname]
      simpa using (haccess _).bracket (hterm.single hkey rfl)
  | array items =>
    rw [Term.Printable] at ht
    rw [Term.readAt?_array, Term.tokens]
    cases items with
    | nil => exact accesses_of_reads reads_primary_nil
    | cons item items =>
      obtain ⟨first, more, htokens, hbracket⟩ := Term.exists_tokensOfItems_eq_cons ht
      exact accesses_of_reads (reads_primary_array
        (fun other hother after => hterm.single (Term.printable_of_mem ht hother)) htokens hbracket)
  | map | call => rw [Term.Printable] at ht; exact ht.elim
  | unary => cases hunary
  | binary op left right =>
    rw [Term.Printable] at ht
    simpa [Term.tokens] using
      accesses_of_reads (reads_primary_paren (hterm.binary ht.1 ht.2 rfl))
  | choice condition yes no =>
    rw [Term.Printable] at ht
    obtain ⟨hcondition, hyes, hno⟩ := ht
    simpa [Term.tokens] using
      accesses_of_reads (reads_primary_paren (hterm.choice hcondition hyes hno rfl))
  | _ =>
    simp only [Term.readAt?, Term.nesting, Term.withoutZeroSigns, Term.tokens]
    exact accesses_of_reads (reads_primary_literal fun c htoken => by simp only [primary, htoken])

/-- Operands, the reader of which has a reader for operators in front if there is a level for it. -/
theorem readsOperands_unary {deeper : Option TermReader} (hterm : ReadsTerms n term)
    (hdeeper : ∀ ⦃operand : Term⦄ ⦃after : List Token⦄, operand.Printable →
      after.head? ≠ some .dot → after.head? ≠ some .leftBracket →
      Reads (unary term deeper) (.not :: operand.tokens) after
        ((Term.unary .not operand).readAt? (n + 1))) :
    ReadsOperands (n + 1) (unary term deeper) := by
  intro t after ht hdot hbracket
  -- The first token tells whether there is an operator in front.
  cases hunary : t.isUnary with
  | false =>
    obtain ⟨first, more, htokens, hfirst⟩ := Term.exists_tokens_eq_cons ht
    rw [hunary] at hfirst
    refine reads_unary ((accesses_tokens hterm ht hunary after).reads hdot hbracket) ?_
    rw [htokens]
    intro heq
    cases heq
    cases hfirst
  | true =>
    cases t with
    | unary op operand =>
      rw [Term.Printable] at ht
      obtain ⟨rfl, hoperand⟩ := ht
      rw [Term.tokens]
      exact hdeeper hoperand hdot hbracket
    | _ => cases hunary

end TermReader

/-- The readers of a level give back the terms for which the levels suffice. -/
structure Level.ReadsBack (n : Nat) (level : Level) : Prop where
  term : TermReader.ReadsTerms n level.term
  operand : TermReader.ReadsOperands (n + 1) level.operand

/-- The readers of every level give back the terms that are not too deep for it, and report the
others as too deep. -/
theorem Level.readsBack_ofDepth (n : Nat) : (ofDepth n).ReadsBack n := by
  induction n with
  | zero =>
    have hoperand : TermReader.ReadsOperands 1 (.unary (fun c => c.fail .tooDeep) none) := by
      refine TermReader.readsOperands_unary TermReader.readsTerms_fail ?_
      intro operand after hoperand hdot hbracket
      rw [Term.readAt?_unary]
      exact TermReader.reads_negation_none
    exact ⟨TermReader.readsTerms_fail, hoperand⟩
  | succ n ih =>
    have hterm := TermReader.readsTerms_choice ih.operand ih.term
    have hoperand : TermReader.ReadsOperands (n + 2)
        (.unary (.choice (ofDepth n).operand (ofDepth n).term) (some (ofDepth n).operand)) := by
      refine TermReader.readsOperands_unary hterm ?_
      intro operand after hoperand hdot hbracket
      rw [Term.readAt?_unary]
      exact TermReader.reads_negation (ih.operand hoperand hdot hbracket)
    exact ⟨hterm, hoperand⟩

end Stencil
