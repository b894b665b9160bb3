import Stencil.Proofs.WrittenExpressions

/-!
# Recognition of the grammar

The reader of expressions accepts exactly what the grammar derives, and gives back the expression
that is derived. A derivation says which tokens belong to a part, and the reader of the part takes
just these if the token behind them is one at which it stops. Tokens that continue a term are
ordered by the looseness with which they bind; a reader stops at the looser ones.

Since the reader is a function, an expression is the only one that its tokens derive.

## Main definitions

* `Token.looseness`, `LooserThan`: where a part of a term ends
* `TermReader.Chains`: what is joined by a loop over operands, before it looks further
* `Derives.Recognized`: what is read of derived tokens, by category

## Main results

* `Derives.recognized`: derived tokens are read, whatever stands behind them at which to stop
* `Expression.ofTokens_eq_ok_of_derived`: a derived expression is accepted
* `Expression.ofTokens_eq_ok_iff`: what is accepted is what is derived
-/

namespace Stencil

/-! ### Where a part ends -/

/-- How loosely a token binds that continues a term. Property accesses bind tightest; a token that
continues no term is the loosest. -/
def Token.looseness : Token → Nat
  | .dot => 1
  | .leftBracket => 1
  | .operator .and => 3
  | .operator .or => 4
  | .operator _ => 2
  | .question => 5
  | _ => 6

/-- The tokens begin with none that binds as tightly as `k` says. -/
def LooserThan (k : Nat) (after : List Token) : Prop :=
  ∀ token ∈ after.head?, k < token.looseness

namespace LooserThan

variable {j k : Nat} {after : List Token} {token : Token}

theorem mono (h : LooserThan k after) (hle : j ≤ k) : LooserThan j after :=
  fun token htoken => lt_of_le_of_lt hle (h token htoken)

theorem head?_ne (h : LooserThan k after) (htoken : token.looseness ≤ k) :
    after.head? ≠ some token :=
  fun hhead => absurd (h token hhead) (not_lt.2 htoken)

theorem cons (h : k < token.looseness) (after : List Token) : LooserThan k (token :: after) :=
  fun first hfirst => by rwa [← Option.some.inj hfirst]

theorem nil (k : Nat) : LooserThan k [] := nofun

theorem head?_bind_comparison? (h : LooserThan 2 after) :
    after.head?.bind TermReader.comparison? = none := by
  cases hhead : after.head? with
  | none => rfl
  | some token =>
    have hlt := h token hhead
    cases token with
    | operator op =>
      cases op with
      | and | or => rfl
      | _ => exact absurd hlt (lt_irrefl 2)
    | _ => rfl

end LooserThan

namespace TermReader

/-! ### Operands with operators between them -/

variable {op : BinaryOperator} {operand term : TermReader} {tokens others after : List Token}
  {t left right : Term}

/-- What the operands in `tokens` are joined to, before what comes `after` is looked at. -/
def Chains (op : BinaryOperator) (operand : TermReader) (tokens after : List Token) (t : Term) :
    Prop :=
  ∀ c, c.tokens = tokens ++ after →
    ∃ next, chain op operand c = chainAfter op operand t next ∧ next.tokens = after

theorem chains_of_reads (h : Reads operand tokens after (some t)) :
    Chains op operand tokens after t := by
  intro c hc
  obtain ⟨next, hread, hnext⟩ := h c hc
  exact ⟨next, by rw [chain, hread]; rfl, hnext⟩

/-- One more operand, which is joined to what stands in front of it. -/
theorem Chains.more (hleft : Chains op operand tokens (.operator op :: others ++ after) left)
    (hright : Reads operand others after (some right)) :
    Chains op operand (tokens ++ .operator op :: others) after (.binary op left right) := by
  intro c hc
  rw [List.append_assoc] at hc
  obtain ⟨next, hchain, hnext⟩ := hleft c hc
  have hpeek : next.peek = some (.operator op) := Cursor.peek_of_tokens hnext
  obtain ⟨last, hread, hlast⟩ := hright next.advance (Cursor.advance_of_tokens hnext).1
  -- The operator has been taken, and the loop goes on.
  have hshorter : last.rest.length < next.rest.length := by
    rw [← last.length_tokens, ← next.length_tokens, hlast, hnext, List.cons_append,
      List.length_cons, List.length_append]
    omega
  refine ⟨last, ?_, hlast⟩
  rw [hchain, chainAfter, if_pos hpeek]
  simp only [hread, if_pos hshorter]

/-- The loop ends where its operator does not follow. -/
theorem Chains.reads (h : Chains op operand tokens after t)
    (hafter : after.head? ≠ some (.operator op)) :
    Reads (chain op operand) tokens after (some t) := by
  intro c hc
  obtain ⟨next, hchain, hnext⟩ := h c hc
  refine ⟨next, ?_, hnext⟩
  rw [hchain, chainAfter, if_neg]
  rwa [next.peek_eq, hnext]

/-! ### Items -/

/-- The items that are read of `tokens` in front of a closing bracket, after those before them. -/
def Lists (term : TermReader) (tokens : List Token) (items : List Term) : Prop :=
  ∀ found after c, c.tokens = tokens ++ .rightBracket :: after →
    Outcome (.rightBracket :: after) (itemsAfter term found c) (some (found.reverse ++ items))

theorem lists_single (h : ∀ after, Reads term tokens (.rightBracket :: after) (some t)) :
    Lists term tokens [t] := by
  intro found after c hc
  obtain ⟨next, hread, hnext⟩ := h after c hc
  have hpeek : next.peek ≠ some .comma := by rw [next.peek_eq, hnext]; exact nofun
  refine ⟨next, ?_, hnext⟩
  rw [itemsAfter_eq, hread, ← List.reverse_cons]
  exact if_neg hpeek

theorem lists_cons {items : List Term} (h : ∀ after, Reads term tokens (.comma :: after) (some t))
    (hitems : Lists term others items) : Lists term (tokens ++ .comma :: others) (t :: items) := by
  intro found after c hc
  rw [List.append_assoc] at hc
  obtain ⟨next, hread, hnext⟩ := h _ c hc
  have hpeek : next.peek = some .comma := Cursor.peek_of_tokens hnext
  have hadvance := (Cursor.advance_of_tokens hnext).1
  have hshorter := Cursor.length_lt_of_tokens hc hadvance
  have hrest := hitems (t :: found) after next.advance hadvance
  rw [List.reverse_cons, List.append_assoc, List.singleton_append] at hrest
  rw [itemsAfter_eq, hread]
  simp only [bind, Except.bind, if_pos hpeek, if_pos hshorter]
  exact hrest

/-- Items between brackets; a bracket that closes at once is another rule. -/
theorem Lists.reads_primary {items : List Term} (h : Lists term tokens items)
    (hfirst : (tokens ++ .rightBracket :: after).head? ≠ some .rightBracket) :
    Reads (primary term) (.leftBracket :: (tokens ++ [.rightBracket])) after
      (some (.array items)) := by
  intro c hc
  rw [List.cons_append, List.append_assoc] at hc
  obtain ⟨hadvance, hbracket⟩ := Cursor.advance_of_tokens hc
  obtain ⟨next, hread, hnext⟩ := h [] after c.advance hadvance
  have hpeek : c.advance.peek ≠ some .rightBracket := by rwa [Cursor.peek_eq, hadvance]
  refine ⟨next.advance, ?_, (Cursor.advance_of_tokens hnext).1⟩
  simp only [primary, hbracket, if_neg hpeek]
  rw [hread]
  simp only [bind, Except.bind, Cursor.expect_of_tokens hnext]
  rfl

theorem reads_primary_atom {token : Token} (h : token.atom? = some t) :
    Reads (primary term) [token] after (some t) := by
  refine reads_primary_literal fun c htoken => ?_
  cases token <;> cases h <;> simp only [primary, htoken]

theorem isKey_number (value : Binary64) :
    IsKey (.number value) (.text (Term.writeNumber value)) :=
  fun c hc => by simp only [dottedKey, hc]

/-! ### Terms -/

/-- What is read of the tokens of a category, in front of tokens at which its reader stops. -/
def Recognizes : Category → Nat → List Token → Term → Prop
  | .term, n, tokens, t => ∀ after, LooserThan 5 after →
    Reads (Level.ofDepth n).term tokens after (some t)
  | .disjunction, n, tokens, t => ∀ after, LooserThan 3 after →
    Chains .or (chain .and (comparison (Level.ofDepth n).operand)) tokens after t
  | .conjunction, n, tokens, t => ∀ after, LooserThan 2 after →
    Chains .and (comparison (Level.ofDepth n).operand) tokens after t
  | .comparison, n, tokens, t => ∀ after, LooserThan 2 after →
    Reads (comparison (Level.ofDepth n).operand) tokens after (some t)
  | .unary, n, tokens, t => ∀ after, LooserThan 1 after →
    Reads (Level.ofDepth n).operand tokens after (some t)
  | .access, n, tokens, t => ∀ after, Accesses (Level.ofDepth n).term tokens after (some t)
  | .primary, n, tokens, t => ∀ after,
    Reads (primary (Level.ofDepth n).term) tokens after (some t)
  | .items, n, tokens, t => ∀ items, t = .array items →
    Lists (Level.ofDepth n).term tokens items

variable {k : Category} {n : Nat}

/-- A disjunction is all there is up to what binds more loosely than its operators. -/
theorem Recognizes.reads_disjunction (h : Recognizes .disjunction n tokens t)
    (hafter : LooserThan 4 after) :
    Reads (chain .or (chain .and (comparison (Level.ofDepth n).operand))) tokens after (some t) :=
  (h after (hafter.mono (by decide))).reads (hafter.head?_ne (by decide))

theorem Recognizes.reads_conjunction (h : Recognizes .conjunction n tokens t)
    (hafter : LooserThan 3 after) :
    Reads (chain .and (comparison (Level.ofDepth n).operand)) tokens after (some t) :=
  (h after (hafter.mono (by decide))).reads (hafter.head?_ne (by decide))

/-- The reader of an operand takes property accesses unless a negation comes first. -/
theorem reads_operand (h : Reads (postfixes (Level.ofDepth n).term) tokens after (some t))
    (hnot : (tokens ++ after).head? ≠ some .not) :
    Reads (Level.ofDepth n).operand tokens after (some t) := by
  have hunary : ∃ deeper, (Level.ofDepth n).operand = unary (Level.ofDepth n).term deeper := by
    cases n with
    | zero => exact ⟨none, rfl⟩
    | succ n => exact ⟨some (Level.ofDepth n).operand, rfl⟩
  obtain ⟨deeper, heq⟩ := hunary
  rw [heq]
  exact reads_unary h hnot

/-- Derived tokens are read, whatever stands behind them at which to stop. -/
theorem recognizes_of_derives (h : Derives k n tokens t) : Recognizes k n tokens t := by
  induction h with
  | term h ih =>
    intro after hafter
    exact reads_choice_of_disjunction (ih.reads_disjunction (hafter.mono (by decide)))
      (hafter.head?_ne (by decide))
  | choice hcondition hyes hno ihcondition ihyes ihno =>
    -- The question mark ends the condition, the colon the first branch.
    intro after hafter
    exact reads_choice (ihcondition.reads_disjunction (.cons (by decide) _))
      (ihyes _ (.cons (by decide) _)) (ihno after hafter)
  | conjunction h ih =>
    intro after hafter
    exact chains_of_reads (ih.reads_conjunction hafter)
  -- An operator ends the operands in front of it, and the loop of its level goes on behind it.
  | or hleft hright ihleft ihright =>
    intro after hafter
    exact (ihleft _ (.cons (by decide) _)).more (ihright.reads_conjunction hafter)
  | comparison h ih =>
    intro after hafter
    exact chains_of_reads (ih after hafter)
  | and hleft hright ihleft ihright =>
    intro after hafter
    exact (ihleft _ (.cons (by decide) _)).more (ihright after hafter)
  | unary h ih =>
    intro after hafter
    exact reads_comparison_single (ih after (hafter.mono (by decide)))
      hafter.head?_bind_comparison?
  | @compare n op tokens others left right hop hleft hright ihleft ihright =>
    intro after hafter
    have hcomparison : comparison? (.operator op) = some op := by
      cases op with
      | and => exact absurd rfl hop.1
      | or => exact absurd rfl hop.2
      | _ => rfl
    have hlooser : 1 < (Token.operator op).looseness := by cases op <;> decide
    exact reads_comparison hcomparison (ihleft _ (.cons hlooser _))
      (ihright after (hafter.mono (by decide)))
  | access h ih =>
    intro after hafter
    -- No property access begins with a negation.
    obtain ⟨first, rest, rfl, hfirst⟩ := h.exists_cons
    refine reads_operand ((ih after).reads (hafter.head?_ne (by decide))
      (hafter.head?_ne (by decide))) fun hnot => ?_
    obtain rfl := Option.some.inj hnot
    obtain hbegins | hother := hfirst
    · cases hbegins
    · exact hother.2.1 rfl
  | not h ih =>
    intro after hafter
    exact reads_negation (ih after hafter)
  -- Accesses and primary terms are read in front of anything.
  | primary h ih => exact fun after => accesses_of_reads (ih after)
  | dotName name h ih => exact fun after => .dot (isKey_identifier name) (ih _)
  | dotNumber value h ih => exact fun after => .dot (isKey_number value) (ih _)
  | bracket h hkey ih ihkey =>
    exact fun after => .bracket (ih _) (ihkey _ (.cons (by decide) _))
  | atom h => exact fun after => reads_primary_atom h
  | paren h ih => exact fun after => reads_primary_paren (ih _ (.cons (by decide) _))
  | noItems => exact fun after => reads_primary_nil
  | array h ih =>
    intro after
    -- Items begin with a term, so the bracket does not close at once.
    obtain ⟨first, rest, rfl, hfirst⟩ := h.exists_cons
    refine (ih _ rfl).reads_primary fun hbracket => ?_
    obtain rfl := Option.some.inj hbracket
    obtain hbegins | hother := hfirst
    · cases hbegins
    · cases hother.1
  | item h ih =>
    intro items hitems
    obtain rfl := Term.array.inj hitems
    exact lists_single fun after => ih _ (.cons (by decide) _)
  | comma h hitems ih ihitems =>
    intro items heq
    obtain rfl := Term.array.inj heq
    exact lists_cons (fun after => ih _ (.cons (by decide) _)) (ihitems _ rfl)

end TermReader

/-! ### Expressions -/

namespace Expression

open TermReader

variable {tokens after : List Token} {option : String × Term} {given : List (String × Term)}

/-- An option is read up to what continues neither it nor its value. -/
theorem outcome_readOption_of_derives (h : DerivesOption tokens option)
    (hafter : LooserThan 5 after) (hassign : after.head? ≠ some .assign) {c : Cursor}
    (hc : c.tokens = tokens ++ after) :
    Outcome after (readOption c) (some option) := by
  cases h with
  | @bare token name hname =>
    obtain ⟨hadvance, htoken⟩ := Cursor.advance_of_tokens hc
    refine ⟨c.advance, ?_, hadvance⟩
    rw [readOption_eq, optionName_eq_ok.2 (htoken ▸ hname)]
    refine if_neg ?_
    rwa [c.advance.peek_eq, hadvance]
  | @valued token name tokens value hname hvalue =>
    obtain ⟨hadvance, htoken⟩ := Cursor.advance_of_tokens hc
    have hpeek : c.advance.peek = some .assign := Cursor.peek_of_tokens hadvance
    obtain ⟨next, hread, hnext⟩ := recognizes_of_derives hvalue after hafter c.advance.advance
      (Cursor.advance_of_tokens hadvance).1
    refine ⟨next, ?_, hnext⟩
    rw [readOption_eq, optionName_eq_ok.2 (htoken ▸ hname)]
    refine (if_pos hpeek).trans ?_
    rw [Expression.term, hread]
    rfl

/-- Options up to the end are put in one after the other. -/
theorem outcome_optionsAfter_of_derives (h : DerivesOptions tokens given) (found : Entries Term)
    {c : Cursor} (hc : c.tokens = tokens) :
    Outcome [] (optionsAfter found c)
      (some (given.foldl (fun sorted (name, value) => sorted.insert name value) found)) := by
  induction h generalizing found c with
  | single h =>
    obtain ⟨next, hread, hnext⟩ := outcome_readOption_of_derives h (.nil 5) nofun
      (hc.trans (List.append_nil _).symm)
    have hpeek : next.peek ≠ some .comma := by rw [next.peek_eq, hnext]; exact nofun
    refine ⟨next, ?_, hnext⟩
    rw [optionsAfter_eq, hread]
    exact if_neg hpeek
  | comma h hoptions ih =>
    obtain ⟨next, hread, hnext⟩ :=
      outcome_readOption_of_derives h (.cons (by decide) _) (by simp) hc
    have hpeek : next.peek = some .comma := Cursor.peek_of_tokens hnext
    have hadvance := (Cursor.advance_of_tokens hnext).1
    have hshorter := Cursor.length_lt_of_tokens hc hadvance
    rw [optionsAfter_eq, hread]
    simp only [bind, Except.bind, if_pos hpeek, if_pos hshorter]
    exact ih _ hadvance

/-- What stands behind a root is read to the end. -/
theorem outcome_tail_of_derives (h : DerivesTail tokens given) {c : Cursor}
    (hc : c.tokens = tokens) :
    Outcome [] (if c.peek = some .atSign then optionsAfter [] c.advance else .ok ([], c))
      (some (Entries.ofList given)) := by
  cases h with
  | missing =>
    have hpeek : c.peek ≠ some .atSign := by rw [c.peek_eq, hc]; exact nofun
    rw [if_neg hpeek]
    exact ⟨c, rfl, hc⟩
  | options h =>
    rw [if_pos (Cursor.peek_of_tokens hc)]
    exact outcome_optionsAfter_of_derives h [] (Cursor.advance_of_tokens hc).1

theorem looserThan_of_derivesTail (h : DerivesTail tokens given) : LooserThan 5 tokens := by
  cases h with
  | missing => exact .nil 5
  | options h => exact .cons (by decide) _

/-- A root is read up to what stands behind it; with no root, that is the at sign of options. -/
theorem outcome_root_of_derives {first : PlacedToken} {rest : List PlacedToken}
    {finish : Location} {t : Term} (h : DerivesRoot tokens t) (htail : DerivesTail after given)
    (htokens : (first :: rest).map (·.token) = tokens ++ after) :
    Outcome after (if first.token = .atSign then .ok (.null, ⟨first, first :: rest, finish⟩)
      else term ⟨first, first :: rest, finish⟩) (some t) := by
  cases h with
  | missing =>
    cases htail with
    | missing => cases htokens
    | options =>
      rw [if_pos (List.cons.inj htokens).1]
      exact ⟨_, rfl, htokens⟩
  | term h =>
    obtain ⟨token, more, rfl, hbegins⟩ := h.exists_cons
    have htoken : first.token = token := (List.cons.inj htokens).1
    have hat : first.token ≠ .atSign := by
      rintro hat
      rw [← htoken, hat] at hbegins
      obtain hbegins | ⟨hnot, -⟩ := hbegins
      · cases hbegins
      · cases hnot
    rw [if_neg hat]
    exact recognizes_of_derives h after (looserThan_of_derivesTail htail) _ htokens

/-- A derived expression is accepted. -/
theorem ofTokens_eq_ok_of_derived {tokens : TokenList} {e : Expression}
    (h : Derived (tokens.tokens.map (·.token)) e) : ofTokens tokens = .ok e := by
  obtain ⟨placed, finish⟩ := tokens
  obtain ⟨root, options⟩ := e
  obtain ⟨first, second, given, htokens, hroot, htail, hsorted, hfind⟩ := h
  -- The options are the ones that the reader puts together, since both are sorted.
  obtain rfl : options = Entries.ofList given :=
    hsorted.eq_of_find?_eq (Entries.sorted_ofList given)
      fun name => (hfind name).trans (Entries.find?_ofList given name).symm
  cases placed with
  | nil =>
    obtain ⟨rfl, rfl⟩ := List.append_eq_nil_iff.1 htokens.symm
    cases htail
    cases hroot with
    | missing => rfl
    | term h => exact absurd rfl h.ne_nil
  | cons token rest =>
    obtain ⟨middle, hread, hmiddle⟩ := outcome_root_of_derives hroot htail htokens
    obtain ⟨last, htailRead, hlast⟩ := outcome_tail_of_derives htail hmiddle
    have hpeek : last.peek = none := by rw [last.peek_eq, hlast]; rfl
    rw [ofTokens_cons, hread]
    simp only [bind, Except.bind, htailRead, hpeek]
    rfl

/-- The reader accepts exactly the grammar: it gives an expression if and only if the tokens derive
it, and no tokens derive two. -/
theorem ofTokens_eq_ok_iff (tokens : TokenList) :
    (∀ e, ofTokens tokens = .ok e ↔ Derived (tokens.tokens.map (·.token)) e) ∧
      ∀ e other, Derived (tokens.tokens.map (·.token)) e →
        Derived (tokens.tokens.map (·.token)) other → e = other := by
  refine ⟨fun e => ⟨derived_of_ofTokens, ofTokens_eq_ok_of_derived⟩, fun e other he hother => ?_⟩
  have haccepted := ofTokens_eq_ok_of_derived he
  rw [ofTokens_eq_ok_of_derived hother] at haccepted
  exact (Except.ok.inj haccepted).symm

/-- The tokens of `a || !b && c @ in = true, in = false`. -/
def optionTokens : List Token :=
  [.identifier "a", .operator .or, .not, .identifier "b", .operator .and, .identifier "c",
    .atSign, .operator .in, .assign, .boolean true, .comma, .operator .in, .assign, .boolean false]

/-- The conjunction binds tighter, and the second of the two options stays. -/
def optionExpression : Expression :=
  ⟨.binary .or (.identifier "a") (.binary .and (.unary .not (.identifier "b")) (.identifier "c")),
    [("in", .boolean false)]⟩

theorem ofTokens_eq_ok_iff_options :
    Derived optionTokens optionExpression ∧
      ofTokens ⟨optionTokens.map (⟨·, .start⟩), .start⟩ = .ok optionExpression ∧
      ∀ e, Derived optionTokens e → e = optionExpression := by
  have hname (n : Nat) (name : String) :
      Derives .unary n [.identifier name] (.identifier name) := .access (.primary (.atom rfl))
  have hright : Derives .conjunction 63
      ([.not, .identifier "b"] ++ .operator .and :: [.identifier "c"]) _ :=
    .and (.comparison (.unary (.not (hname 62 "b")))) (.unary (hname 63 "c"))
  have hroot : Derives .term maxNesting ([.identifier "a"] ++ .operator .or :: _) _ :=
    .term (.or (.conjunction (.comparison (.unary (hname 63 "a")))) hright)
  have hvalue (value : Bool) : DerivesOption [.operator .in, .assign, .boolean value]
      ("in", .boolean value) :=
    .valued rfl (.term (.conjunction (.comparison (.unary (.access (.primary (.atom rfl)))))))
  have hderived : Derived optionTokens optionExpression := by
    refine ⟨_, _, _, rfl, .term hroot, .options (.comma (hvalue true) (.single (hvalue false))),
      List.pairwise_singleton _ _, fun name => ?_⟩
    by_cases h : name = "in"
    · subst h
      rfl
    · simp [optionExpression, Entries.find?, List.lookup_cons, beq_eq_false_iff_ne.2 h]
  have hiff := ofTokens_eq_ok_iff ⟨optionTokens.map (⟨·, .start⟩), .start⟩
  exact ⟨hderived, (hiff.1 _).2 hderived, fun e he => hiff.2 e _ he hderived⟩

end Expression

end Stencil
