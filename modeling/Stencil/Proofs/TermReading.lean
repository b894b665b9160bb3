import Stencil.Proofs.WrittenTerms

/-!
# Reading the tokens of terms

What each reader of the grammar makes of the tokens that are written for its parts, given what the
readers of the parts make of theirs: a term, or the report that there are not enough levels of
nesting. What follows must not continue what is read.

## Main definitions

* `Outcome`: a value, or the report that there are not enough levels
* `TermReader.Reads`: what a reader makes of tokens
* `TermReader.Accesses`: what is accessed in tokens, as far as they go

## Main results

* `TermReader.reads_disjunction`: two operands with an operator between them
* `TermReader.reads_choice`: a condition and two branches
* `TermReader.reads_primary_paren`, `TermReader.reads_primary_array`: terms between brackets
* `TermReader.Accesses.dot`, `TermReader.Accesses.bracket`: properties
-/

namespace Stencil

/-- What comes out of two steps comes out of the second one, from what the first one gives. -/
theorem exists_of_bind_eq_ok {ε α β : Type} {first : Except ε α} {second : α → Except ε β} {b : β}
    (h : first >>= second = .ok b) : ∃ a, first = .ok a ∧ second a = .ok b := by
  cases first with
  | error e => cases h
  | ok a => exact ⟨a, rfl, h⟩

theorem ok_mk_inj {ε α β : Type} {a a' : α} {b b' : β}
    (h : (.ok (a, b) : Except ε (α × β)) = .ok (a', b')) : a = a' ∧ b = b' :=
  Prod.mk.inj (Except.ok.inj h)

/-! ### What readers make of tokens -/

/-- The tokens still to be read, wherever they stand. -/
def Cursor.tokens (c : Cursor) : List Token :=
  c.rest.map (·.token)

namespace Cursor

variable {c : Cursor} {token : Token} {after : List Token}

theorem peek_eq (c : Cursor) : c.peek = c.tokens.head? :=
  List.head?_map.symm

theorem peek_of_tokens (h : c.tokens = token :: after) : c.peek = some token := by
  rw [c.peek_eq, h, List.head?_cons]

theorem length_tokens (c : Cursor) : c.tokens.length = c.rest.length :=
  List.length_map _

theorem advance_of_tokens (h : c.tokens = token :: after) :
    c.advance.tokens = after ∧ c.advance.last.token = token := by
  unfold tokens at h
  cases hrest : c.rest with
  | nil => rw [hrest] at h; cases h
  | cons next rest =>
    rw [hrest, List.map_cons] at h
    obtain ⟨hnext, hafter⟩ := List.cons.inj h
    simp only [advance, hrest, tokens]
    exact ⟨hafter, hnext⟩

theorem expect_of_tokens (h : c.tokens = token :: after) (needed : Expectation) :
    c.expect token needed = .ok c.advance := by
  rw [expect, peek_eq, h]
  exact if_pos rfl

/-- What is left behind a token is shorter, which the loops of the readers ask for. -/
theorem length_lt_of_tokens {next : Cursor} {taken : List Token}
    (hc : c.tokens = taken ++ token :: after) (hnext : next.tokens = after) :
    next.rest.length < c.rest.length := by
  rw [← c.length_tokens, ← next.length_tokens, hc, hnext, List.length_append, List.length_cons]
  omega

end Cursor

/-- The outcome of reading: a value, with the tokens `after` left, or the report that there are not
enough levels. -/
def Outcome {α : Type} (after : List Token) (result : Except ExpressionError (α × Cursor)) :
    Option α → Prop
  | some value => ∃ next, result = .ok (value, next) ∧ next.tokens = after
  | none => ∃ location, result = .error ⟨location, .tooDeep⟩

namespace Outcome

variable {α β : Type} {middle after : List Token} {first : Except ExpressionError (α × Cursor)}
  {second : α × Cursor → Except ExpressionError (β × Cursor)} {value? : Option α}
  {other? : α → Option β}

/-- Reading on from where the first reader ends, with the value that it gives. -/
theorem bind_of_eq (hfirst : Outcome middle first value?)
    (hsecond : ∀ value next, value? = some value → next.tokens = middle →
      Outcome after (second (value, next)) (other? value)) :
    Outcome after (first >>= second) (value?.bind other?) := by
  cases value? with
  | none =>
    obtain ⟨location, rfl⟩ := hfirst
    exact ⟨location, rfl⟩
  | some value =>
    obtain ⟨next, rfl, hnext⟩ := hfirst
    exact hsecond value next rfl hnext

theorem bind (hfirst : Outcome middle first value?)
    (hsecond : ∀ value next, next.tokens = middle →
      Outcome after (second (value, next)) (other? value)) :
    Outcome after (first >>= second) (value?.bind other?) :=
  hfirst.bind_of_eq fun value next _ => hsecond value next

end Outcome

/-- Whether a term goes on with the token. -/
def Token.goesOn : Token → Bool
  | .dot => true
  | .leftBracket => true
  | .operator _ => true
  | .question => true
  | _ => false

namespace TermReader

/-- What a reader makes of `tokens` in front of `after`. -/
def Reads (reader : TermReader) (tokens after : List Token) (t? : Option Term) : Prop :=
  ∀ c, c.tokens = tokens ++ after → Outcome after (reader c) t?

variable {operand term : TermReader} {tokens others after : List Token} {t? other? : Option Term}

theorem reads_chain_single (op : BinaryOperator) (hoperand : Reads operand tokens after t?)
    (hafter : after.head? ≠ some (.operator op)) : Reads (chain op operand) tokens after t? := by
  intro c hc
  have h : Outcome after (chain op operand c) (t?.bind some) := by
    refine (hoperand c hc).bind fun left next hnext => ?_
    refine ⟨next, ?_, hnext⟩
    simp only
    rw [chainAfter, if_neg]
    rw [next.peek_eq, hnext]
    exact hafter
  rwa [Option.bind_fun_some] at h

theorem reads_chain (op : BinaryOperator)
    (hleft : Reads operand tokens (.operator op :: others ++ after) t?)
    (hright : Reads operand others after other?) (hafter : after.head? ≠ some (.operator op)) :
    Reads (chain op operand) (tokens ++ .operator op :: others) after
      (t?.bind fun left => other?.bind fun right => some (.binary op left right)) := by
  intro c hc
  rw [List.append_assoc] at hc
  refine (hleft c hc).bind fun left next hnext => ?_
  have hpeek : next.peek = some (.operator op) := Cursor.peek_of_tokens hnext
  have hadvance := (Cursor.advance_of_tokens hnext).1
  simp only
  rw [chainAfter, if_pos hpeek]
  cases other? with
  | none =>
    obtain ⟨location, hread⟩ := hright next.advance hadvance
    exact ⟨location, by simp only [hread]⟩
  | some right =>
    obtain ⟨last, hread, hlast⟩ := hright next.advance hadvance
    have hshorter : last.rest.length < next.rest.length := by
      rw [← last.length_tokens, ← next.length_tokens, hlast, hnext]
      simp only [List.cons_append, List.length_cons, List.length_append]
      omega
    refine ⟨last, ?_, hlast⟩
    simp only [hread, if_pos hshorter]
    rw [chainAfter, if_neg]
    rw [last.peek_eq, hlast]
    exact hafter

theorem reads_comparison_single (hoperand : Reads operand tokens after t?)
    (hafter : after.head?.bind comparison? = none) : Reads (comparison operand) tokens after t? := by
  intro c hc
  have h : Outcome after (comparison operand c) (t?.bind some) := by
    refine (hoperand c hc).bind fun left next hnext => ?_
    refine ⟨next, ?_, hnext⟩
    simp only [next.peek_eq, hnext, hafter]
  rwa [Option.bind_fun_some] at h

theorem reads_comparison {op : BinaryOperator} (hop : comparison? (.operator op) = some op)
    (hleft : Reads operand tokens (.operator op :: others ++ after) t?)
    (hright : Reads operand others after other?) :
    Reads (comparison operand) (tokens ++ .operator op :: others) after
      (t?.bind fun left => other?.bind fun right => some (.binary op left right)) := by
  intro c hc
  rw [List.append_assoc] at hc
  refine (hleft c hc).bind fun left next hnext => ?_
  have hpeek : next.peek.bind comparison? = some op := by rw [next.peek_eq, hnext]; exact hop
  simp only [hpeek]
  refine (hright next.advance (Cursor.advance_of_tokens hnext).1).bind fun right last hlast => ?_
  exact ⟨last, rfl, hlast⟩

theorem head?_bind_comparison? (hafter : ∀ op, after.head? ≠ some (.operator op)) :
    after.head?.bind comparison? = none := by
  cases hhead : after.head? with
  | none => rfl
  | some token =>
    cases token
    case operator op => exact absurd hhead (hafter op)
    all_goals rfl

/-- A disjunction of one operand. -/
theorem reads_disjunction_single (hoperand : Reads operand tokens after t?)
    (hafter : ∀ op, after.head? ≠ some (.operator op)) :
    Reads (chain .or (chain .and (comparison operand))) tokens after t? := by
  have hcomparison := reads_comparison_single hoperand (head?_bind_comparison? hafter)
  have hconjunction := reads_chain_single .and hcomparison (hafter .and)
  exact reads_chain_single .or hconjunction (hafter .or)

/-- Two operands with an operator between them, at whichever level of the grammar it stands. -/
theorem reads_disjunction (op : BinaryOperator)
    (hleft : Reads operand tokens (.operator op :: others ++ after) t?)
    (hright : Reads operand others after other?) (hafter : ∀ op, after.head? ≠ some (.operator op)) :
    Reads (chain .or (chain .and (comparison operand))) (tokens ++ .operator op :: others) after
      (t?.bind fun left => other?.bind fun right => some (.binary op left right)) := by
  have hsingle := reads_comparison_single hright (head?_bind_comparison? hafter)
  -- The loop of the operator's level takes both operands; at the other levels there is one operand.
  cases op with
  | or =>
    have hleft := reads_chain_single .and (reads_comparison_single hleft rfl) (by simp)
    exact reads_chain .or hleft (reads_chain_single .and hsingle (hafter .and)) (hafter .or)
  | and =>
    have hleft := reads_comparison_single hleft rfl
    exact reads_chain_single .or (reads_chain .and hleft hsingle (hafter .and)) (hafter .or)
  | _ =>
    have hcomparison := reads_comparison rfl hleft hright
    exact reads_chain_single .or (reads_chain_single .and hcomparison (hafter .and)) (hafter .or)

/-- A disjunction that no question mark follows. -/
theorem reads_choice_of_disjunction
    (hread : Reads (chain .or (chain .and (comparison operand))) tokens after t?)
    (hafter : after.head? ≠ some .question) : Reads (choice operand term) tokens after t? := by
  intro c hc
  have h : Outcome after (choice operand term c) (t?.bind some) := by
    refine (hread c hc).bind fun condition next hnext => ⟨next, if_neg ?_, hnext⟩
    rwa [next.peek_eq, hnext]
  rwa [Option.bind_fun_some] at h

/-- A condition, whichever disjunction it is, and two branches. -/
theorem reads_choice {last : List Token} {last? : Option Term}
    (hcondition : Reads (chain .or (chain .and (comparison operand))) tokens
      (.question :: (others ++ .colon :: last) ++ after) t?)
    (hyes : Reads term others (.colon :: last ++ after) other?) (hno : Reads term last after last?) :
    Reads (choice operand term) (tokens ++ .question :: (others ++ .colon :: last)) after
      (t?.bind fun condition => other?.bind fun yes => last?.bind fun no =>
        some (.choice condition yes no)) := by
  intro c hc
  rw [List.append_assoc] at hc
  refine (hcondition c hc).bind fun condition next hnext => ?_
  have hpeek : next.peek = some .question := Cursor.peek_of_tokens hnext
  simp only [if_pos hpeek]
  have hbranch := (Cursor.advance_of_tokens hnext).1.trans (List.append_assoc ..)
  refine (hyes next.advance hbranch).bind fun yes middle hmiddle => ?_
  simp only [Cursor.expect_of_tokens hmiddle]
  refine (hno middle.advance (Cursor.advance_of_tokens hmiddle).1).bind fun no finish hfinish => ?_
  exact ⟨finish, rfl, hfinish⟩

/-! ### Primary terms -/

theorem reads_primary_paren (hterm : Reads term tokens (.rightParen :: after) t?) :
    Reads (primary term) (.leftParen :: (tokens ++ [.rightParen])) after t? := by
  intro c hc
  rw [List.cons_append, List.append_assoc] at hc
  obtain ⟨hinner, hfirst⟩ := Cursor.advance_of_tokens hc
  have h : Outcome after (primary term c) (t?.bind some) := by
    simp only [primary, hfirst]
    refine (hterm c.advance hinner).bind fun inner next hnext => ?_
    simp only [Cursor.expect_of_tokens hnext]
    exact ⟨next.advance, rfl, (Cursor.advance_of_tokens hnext).1⟩
  rwa [Option.bind_fun_some] at h

theorem itemsAfter_eq (term : TermReader) (found : List Term) (c : Cursor) :
    itemsAfter term found c = term c >>= fun read =>
      if read.2.peek = some .comma then
        if read.2.advance.rest.length < c.rest.length then
          itemsAfter term (read.1 :: found) read.2.advance
        else .ok ((read.1 :: found).reverse, read.2.advance)
      else .ok ((read.1 :: found).reverse, read.2) := by
  rw [itemsAfter]
  cases term c <;> rfl

/-- Reading one after the other, with what has been found before in front. -/
theorem map_mapM_cons {α β : Type} (read? : α → Option β) (found : List β) (item : α)
    (items : List α) :
    ((item :: items).mapM read?).map (found ++ ·) =
      (read? item).bind fun value => (items.mapM read?).map (found ++ [value] ++ ·) := by
  rw [List.mapM_cons]
  cases read? item with
  | none => rfl
  | some value => cases items.mapM read? <;> simp

/-- Items with commas between them, up to the closing bracket. -/
theorem outcome_itemsAfter {read? : Term → Option Term} {item : Term} {items : List Term}
    (hread : ∀ other ∈ item :: items, ∀ after, after.head?.any Token.goesOn = false →
      Reads term other.tokens after (read? other))
    (found : List Term) {c : Cursor}
    (hc : c.tokens = Term.tokensOfItems (item :: items) ++ .rightBracket :: after) :
    Outcome (.rightBracket :: after) (itemsAfter term found c)
      (((item :: items).mapM read?).map (found.reverse ++ ·)) := by
  induction items generalizing item found c with
  | nil =>
    rw [itemsAfter_eq, map_mapM_cons]
    have hitem := hread item List.mem_cons_self
    refine (hitem (.rightBracket :: after) rfl c hc).bind fun value next hnext => ?_
    have hpeek : next.peek ≠ some .comma := by rw [next.peek_eq, hnext]; exact nofun
    rw [if_neg hpeek]
    exact ⟨next, by simp, hnext⟩
  | cons second items ih =>
    -- The comma ends the item and is taken, so the loop goes on with the items behind it.
    obtain ⟨hitem, hread⟩ := List.forall_mem_cons.1 hread
    rw [Term.tokensOfItems, List.append_assoc] at hc
    rw [itemsAfter_eq, map_mapM_cons]
    refine (hitem _ rfl c hc).bind fun value next hnext => ?_
    have hpeek : next.peek = some .comma := Cursor.peek_of_tokens hnext
    have hadvance := (Cursor.advance_of_tokens hnext).1
    have hshorter := Cursor.length_lt_of_tokens hc hadvance
    rw [if_pos hpeek, if_pos hshorter, ← List.reverse_cons]
    exact ih hread (value :: found) hadvance

theorem reads_primary_nil :
    Reads (primary term) [.leftBracket, .rightBracket] after (some (.array [])) := by
  intro c hc
  obtain ⟨hadvance, hfirst⟩ := Cursor.advance_of_tokens hc
  have hpeek : c.advance.peek = some .rightBracket := Cursor.peek_of_tokens hadvance
  simp only [primary, hfirst, if_pos hpeek]
  exact ⟨_, rfl, (Cursor.advance_of_tokens hadvance).1⟩

theorem reads_primary_array {read? : Term → Option Term} {item : Term} {items : List Term}
    (hread : ∀ other ∈ item :: items, ∀ after, after.head?.any Token.goesOn = false →
      Reads term other.tokens after (read? other))
    {first : Token} {more : List Token} (htokens : Term.tokensOfItems (item :: items) = first :: more)
    (hbracket : first ≠ .rightBracket) :
    Reads (primary term) (.leftBracket :: (Term.tokensOfItems (item :: items) ++ [.rightBracket]))
      after (((item :: items).mapM read?).bind fun values => some (.array values)) := by
  intro c hc
  rw [List.cons_append, List.append_assoc] at hc
  obtain ⟨hadvance, hfirst⟩ := Cursor.advance_of_tokens hc
  have hpeek : c.advance.peek ≠ some .rightBracket := by
    rw [Cursor.peek_eq, hadvance, htokens]
    exact fun heq => hbracket (Option.some.inj heq)
  simp only [primary, hfirst, if_neg hpeek]
  have h := outcome_itemsAfter hread [] hadvance
  rw [List.reverse_nil] at h
  refine Outcome.bind (by simpa using h) fun values next hnext => ?_
  simp only [Cursor.expect_of_tokens hnext]
  exact ⟨next.advance, rfl, (Cursor.advance_of_tokens hnext).1⟩

/-! ### Property accesses -/

/-- What is accessed in `tokens`, before what comes `after` is looked at. -/
def Accesses (term : TermReader) (tokens after : List Token) : Option Term → Prop
  | some t => ∀ c, c.tokens = tokens ++ after →
    ∃ next, postfixes term c = propertiesAfter term t next ∧ next.tokens = after
  | none => ∀ c, c.tokens = tokens ++ after →
    ∃ location, postfixes term c = .error ⟨location, .tooDeep⟩

theorem accesses_of_reads (hread : Reads (primary term) tokens after t?) :
    Accesses term tokens after t? := by
  cases t? with
  | none =>
    intro c hc
    obtain ⟨location, hread⟩ := hread c hc
    exact ⟨location, by rw [postfixes, hread]; rfl⟩
  | some t =>
    intro c hc
    obtain ⟨next, hread, hnext⟩ := hread c hc
    exact ⟨next, by rw [postfixes, hread]; rfl, hnext⟩

/-- The token behind a dot is the key by itself. -/
def IsKey (token : Token) (key : Term) : Prop :=
  ∀ c : Cursor, c.advance.last.token = token → dottedKey c = .ok (key, c.advance)

theorem isKey_identifier (name : String) : IsKey (.identifier name) (.text name) :=
  fun c hc => by simp only [dottedKey, hc]

theorem propertiesAfter_dot {token : Token} {key : Term} {c : Cursor} (t : Term)
    (hkey : IsKey token key) (hc : c.tokens = .dot :: token :: after) :
    propertiesAfter term t c = propertiesAfter term (.property t key) c.advance.advance := by
  have hpeek : c.peek = some .dot := Cursor.peek_of_tokens hc
  have hadvance := (Cursor.advance_of_tokens hc).1
  obtain ⟨hafter, htoken⟩ := Cursor.advance_of_tokens hadvance
  have hsplit : c.tokens = [.dot] ++ token :: after := hc
  have hshorter := Cursor.length_lt_of_tokens hsplit hafter
  rw [propertiesAfter, if_pos hpeek]
  simp only [hkey c.advance htoken, if_pos hshorter]

theorem Accesses.dot {token : Token} {key : Term} (hkey : IsKey token key)
    (h : Accesses term tokens (.dot :: token :: after) t?) :
    Accesses term (tokens ++ [.dot, token]) after (t?.bind fun t => some (.property t key)) := by
  cases t? with
  | none =>
    intro c hc
    exact h c (hc.trans (List.append_assoc ..))
  | some t =>
    intro c hc
    obtain ⟨next, heq, hnext⟩ := h c (hc.trans (List.append_assoc ..))
    refine ⟨_, heq.trans (propertiesAfter_dot t hkey hnext), ?_⟩
    exact (Cursor.advance_of_tokens (Cursor.advance_of_tokens hnext).1).1

theorem propertiesAfter_bracket {c : Cursor} (t : Term)
    (hc : c.tokens = .leftBracket :: (others ++ .rightBracket :: after))
    (hkey : Reads term others (.rightBracket :: after) other?) :
    match other? with
    | some key => ∃ next,
      propertiesAfter term t c = propertiesAfter term (.property t key) next ∧ next.tokens = after
    | none => ∃ location, propertiesAfter term t c = .error ⟨location, .tooDeep⟩ := by
  have hpeek : c.peek = some .leftBracket := Cursor.peek_of_tokens hc
  have hdot : c.peek ≠ some .dot := by rw [hpeek]; exact nofun
  have hread := hkey c.advance (Cursor.advance_of_tokens hc).1
  cases other? with
  | none =>
    obtain ⟨location, hread⟩ := hread
    refine ⟨location, ?_⟩
    rw [propertiesAfter, if_neg hdot, if_pos hpeek]
    simp only [hread]
  | some key =>
    obtain ⟨next, hread, hnext⟩ := hread
    have hafter := (Cursor.advance_of_tokens hnext).1
    have hsplit : c.tokens = (.leftBracket :: others) ++ .rightBracket :: after := hc
    have hshorter := Cursor.length_lt_of_tokens hsplit hafter
    refine ⟨next.advance, ?_, hafter⟩
    rw [propertiesAfter, if_neg hdot, if_pos hpeek]
    simp only [hread, Cursor.expect_of_tokens hnext, if_pos hshorter]

theorem Accesses.bracket
    (h : Accesses term tokens (.leftBracket :: (others ++ .rightBracket :: after)) t?)
    (hkey : Reads term others (.rightBracket :: after) other?) :
    Accesses term (tokens ++ .leftBracket :: (others ++ [.rightBracket])) after
      (t?.bind fun t => other?.bind fun key => some (.property t key)) := by
  have hsplit : tokens ++ .leftBracket :: (others ++ [.rightBracket]) ++ after =
      tokens ++ .leftBracket :: (others ++ .rightBracket :: after) := by simp
  cases t? with
  | none =>
    intro c hc
    exact h c (hc.trans hsplit)
  | some t =>
    have hstep (c : Cursor) (hc : c.tokens = _) : ∃ next, postfixes term c =
        propertiesAfter term t next ∧ next.tokens = _ := h c (hc.trans hsplit)
    cases other? with
    | none =>
      intro c hc
      obtain ⟨next, heq, hnext⟩ := hstep c hc
      obtain ⟨location, herror⟩ := propertiesAfter_bracket t hnext hkey
      exact ⟨location, heq.trans herror⟩
    | some key =>
      intro c hc
      obtain ⟨next, heq, hnext⟩ := hstep c hc
      obtain ⟨last, hlast, htokens⟩ := propertiesAfter_bracket t hnext hkey
      exact ⟨last, heq.trans hlast, htokens⟩

theorem Accesses.reads (h : Accesses term tokens after t?) (hdot : after.head? ≠ some .dot)
    (hbracket : after.head? ≠ some .leftBracket) : Reads (postfixes term) tokens after t? := by
  intro c hc
  cases t? with
  | none => exact h c hc
  | some t =>
    obtain ⟨next, heq, hnext⟩ := h c hc
    refine ⟨next, ?_, hnext⟩
    rw [heq, propertiesAfter, if_neg (by rwa [next.peek_eq, hnext]),
      if_neg (by rwa [next.peek_eq, hnext])]

/-! ### Operands -/

theorem reads_unary {deeper : Option TermReader} (hread : Reads (postfixes term) tokens after t?)
    (hnot : (tokens ++ after).head? ≠ some .not) : Reads (unary term deeper) tokens after t? := by
  intro c hc
  have hpeek : c.peek ≠ some .not := by rwa [c.peek_eq, hc]
  have heq : unary term deeper c = postfixes term c := if_neg hpeek
  rw [heq]
  exact hread c hc

theorem reads_negation {deeper : TermReader} (hread : Reads deeper tokens after t?) :
    Reads (unary term (some deeper)) (.not :: tokens) after
      (t?.bind fun operand => some (.unary .not operand)) := by
  intro c hc
  have hpeek : c.peek = some .not := Cursor.peek_of_tokens hc
  rw [unary, if_pos hpeek]
  refine (hread c.advance (Cursor.advance_of_tokens hc).1).bind fun operand next hnext => ?_
  exact ⟨next, rfl, hnext⟩

theorem reads_negation_none : Reads (unary term none) (.not :: tokens) after none := by
  intro c hc
  have hpeek : c.peek = some .not := Cursor.peek_of_tokens hc
  rw [unary, if_pos hpeek]
  exact ⟨_, rfl⟩

end TermReader

end Stencil
