import Stencil.Proofs.Compilation
import Stencil.Proofs.Recognition
import Stencil.Proofs.UnfinishedTerms

/-!
# Tokens that could go on

A reader of tokens that break off behind an opening bracket goes the same way as on longer tokens
that begin with them, until it has taken the bracket: so far it has looked at no token behind them.
Then a term has to follow, and where there is none, all readers see the bracket again, level by
level, and report too deep nesting at the end. So this is what becomes of every expression that
breaks off there, and with few tokens that begin a level it becomes of no other one.

## Main definitions

* `Cursor.extend`: the cursor with more tokens at the end
* `Agrees`: what is read of tokens, and of the same with more at the end
* `TermReader.Continues`: a reader takes no notice of what stands behind an opening bracket at the
  end, until it has taken the bracket

## Main results

* `Level.continues_ofDepth`: the readers of each level
* `Expression.ofTokens_of_beginning`: what is reported where an expression breaks off
* `Expression.parse_eq_tooDeep_iff`: when nesting is reported to be too deep
-/

namespace Stencil

open Token (BreakOff)

/-! ### More tokens at the end -/

namespace Cursor

/-- The cursor with more tokens behind those that are left, and another end. -/
def extend (c : Cursor) (more : List PlacedToken) (finish : Location) : Cursor :=
  ⟨c.last, c.rest ++ more, finish⟩

variable {c next : Cursor} {more : List PlacedToken} {finish : Location} {token : Token}

theorem exists_rest (h : BreakOff c.tokens) : ∃ first rest, c.rest = first :: rest := by
  cases hrest : c.rest with
  | nil =>
    obtain ⟨bracket, hlast, -⟩ := h
    rw [tokens, hrest] at hlast
    cases hlast
  | cons first rest => exact ⟨first, rest, rfl⟩

theorem peek_of_breakOff (h : BreakOff c.tokens) : c.peek = some c.advance.last.token := by
  obtain ⟨first, rest, hrest⟩ := exists_rest h
  rw [peek, advance, hrest]
  rfl

theorem last_extend (c : Cursor) : (c.extend more finish).last = c.last :=
  rfl

theorem peek_extend (h : BreakOff c.tokens) : (c.extend more finish).peek = c.peek := by
  obtain ⟨first, rest, hrest⟩ := exists_rest h
  rw [peek, peek, extend, hrest]
  rfl

theorem location_extend (h : BreakOff c.tokens) : (c.extend more finish).location = c.location := by
  obtain ⟨first, rest, hrest⟩ := exists_rest h
  rw [location, location, extend, hrest]
  rfl

theorem advance_extend (h : BreakOff c.tokens) :
    (c.extend more finish).advance = c.advance.extend more finish := by
  obtain ⟨first, rest, hrest⟩ := exists_rest h
  rw [advance, advance, extend, hrest]
  rfl

theorem finish_advance (c : Cursor) : c.advance.finish = c.finish := by
  unfold advance
  split <;> rfl

theorem length_extend_lt :
    (next.extend more finish).rest.length < (c.extend more finish).rest.length ↔
      next.rest.length < c.rest.length := by
  simp [extend]

/-- The bracket is among the tokens still to be taken, or was taken last. -/
theorem breaksOff_cases (h : c.BreaksOff) :
    BreakOff c.tokens ∨ c.rest = [] ∧ c.last.token.isOpening = true := by
  obtain ⟨bracket, hlast, hopening⟩ := h
  cases hrest : c.rest with
  | nil =>
    rw [tokens, hrest, List.map_nil, List.getLast?_singleton] at hlast
    obtain rfl := Option.some.inj hlast
    exact .inr ⟨rfl, hopening⟩
  | cons first rest =>
    have htokens : c.tokens = first.token :: rest.map (·.token) := by
      rw [tokens, hrest, List.map_cons]
    rw [htokens, List.getLast?_cons_cons, ← htokens] at hlast
    exact .inl ⟨bracket, hlast, hopening⟩

/-- Behind a token that opens no bracket there are others, down to the one that does. -/
theorem breakOff_advance (h : BreakOff c.tokens) (hpeek : c.peek = some token)
    (htoken : token.isOpening = false) : BreakOff c.advance.tokens := by
  refine (breaksOff_cases ((breaksOff_advance_iff hpeek).2 h)).resolve_right fun hend => ?_
  rw [(tokens_of_peek hpeek).2, htoken] at hend
  exact Bool.false_ne_true hend.2

end Cursor

/-- What is read of tokens that break off, and of the same with more at the end: the same value or
the same error, unless the first reading has come to the end, where it runs out of levels. -/
inductive Agrees {α : Type} (stop : Location) (more : List PlacedToken) (finish : Location) :
    Except ExpressionError (α × Cursor) → Except ExpressionError (α × Cursor) → Prop where
  | ok {value : α} {next : Cursor} (hopen : BreakOff next.tokens) (hstop : next.finish = stop) :
      Agrees stop more finish (.ok (value, next)) (.ok (value, next.extend more finish))
  | error (e : ExpressionError) : Agrees stop more finish (.error e) (.error e)
  | stuck (other : Except ExpressionError (α × Cursor)) :
      Agrees stop more finish (.error ⟨stop, .tooDeep⟩) other

section

variable {stop finish : Location} {more : List PlacedToken}

namespace Agrees

variable {α β : Type} {first other : Except ExpressionError (α × Cursor)}
  {second second' : α × Cursor → Except ExpressionError (β × Cursor)}

theorem bind (h : Agrees stop more finish first other)
    (hsecond : ∀ value next, BreakOff next.tokens → next.finish = stop →
      Agrees stop more finish (second (value, next)) (second' (value, next.extend more finish))) :
    Agrees stop more finish (first >>= second) (other >>= second') := by
  cases h with
  | ok hopen hstop => exact hsecond _ _ hopen hstop
  | error e => exact .error e
  | stuck other => exact .stuck _

theorem outcome (h : Agrees stop more finish first other) :
    first = .error ⟨stop, .tooDeep⟩ ∨ (∃ e, first = .error e ∧ other = .error e) ∨
      ∃ value next, BreakOff next.tokens ∧ next.finish = stop ∧ first = .ok (value, next) ∧
        other = .ok (value, next.extend more finish) := by
  cases h with
  | ok hopen hstop => exact .inr (.inr ⟨_, _, hopen, hstop, rfl, rfl⟩)
  | error e => exact .inr (.inl ⟨e, rfl, rfl⟩)
  | stuck other => exact .inl rfl

/-- A token that is needed is there on both sides or missing on both. -/
theorem expect {token : Token} {needed : Expectation} {c : Cursor}
    {after after' : Cursor → Except ExpressionError (β × Cursor)}
    (hopen : BreakOff c.tokens) (hstop : c.finish = stop)
    (hafter : c.peek = some token → c.advance.finish = stop →
      Agrees stop more finish (after c.advance) (after' (c.advance.extend more finish))) :
    Agrees stop more finish (c.expect token needed >>= after)
      ((c.extend more finish).expect token needed >>= after') := by
  rw [Cursor.expect, Cursor.expect, Cursor.peek_extend hopen, Cursor.advance_extend hopen]
  split
  · next hpeek => exact hafter hpeek (c.finish_advance.trans hstop)
  · rw [Cursor.fail, Cursor.fail, Cursor.location_extend hopen]
    exact .error _

end Agrees

/-! ### The readers of terms -/

namespace TermReader

variable (stop finish more) in
/-- A reader at an opening bracket at the end runs out of levels, and in front of one it reads the
same if more tokens follow. -/
structure Continues (reader : TermReader) : Prop where
  stuck : ∀ ⦃c⦄, c.rest = [] → c.last.token.isOpening = true → c.finish = stop →
    reader c = .error ⟨stop, .tooDeep⟩
  agrees : ∀ ⦃c⦄, BreakOff c.tokens → c.finish = stop →
    Agrees stop more finish (reader c) (reader (c.extend more finish))

variable {operand term : TermReader} {c : Cursor}

theorem Continues.of_breaksOff (h : Continues stop finish more term) (hopen : c.BreaksOff)
    (hstop : c.finish = stop) :
    Agrees stop more finish (term c) (term (c.extend more finish)) := by
  rcases Cursor.breaksOff_cases hopen with hopen | ⟨hend, hopening⟩
  · exact h.agrees hopen hstop
  · rw [h.stuck hend hopening hstop]
    exact .stuck _

/-- Behind the next token, whichever it is. -/
theorem Continues.advance (h : Continues stop finish more term) (hopen : BreakOff c.tokens)
    (hstop : c.finish = stop) {token : Token} (hpeek : c.peek = some token) :
    Agrees stop more finish (term c.advance) (term (c.extend more finish).advance) := by
  rw [Cursor.advance_extend hopen]
  exact h.of_breaksOff ((Cursor.breaksOff_advance_iff hpeek).2 hopen)
    (c.finish_advance.trans hstop)

theorem chainAfter_eq (op : BinaryOperator) (operand : TermReader) (left : Term) (c : Cursor) :
    chainAfter op operand left c =
      if c.peek = some (.operator op) then operand c.advance >>= fun read =>
        if read.2.rest.length < c.rest.length then
          chainAfter op operand (.binary op left read.1) read.2
        else .ok (.binary op left read.1, read.2)
      else .ok (left, c) := by
  rw [chainAfter]
  split
  · cases operand c.advance <;> rfl
  · rfl

theorem agrees_chainAfter (op : BinaryOperator) (h : Continues stop finish more operand)
    (left : Term) (hopen : BreakOff c.tokens) (hstop : c.finish = stop) :
    Agrees stop more finish (chainAfter op operand left c)
      (chainAfter op operand left (c.extend more finish)) := by
  induction hlength : c.rest.length using Nat.strongRecOn generalizing c left with
  | _ length ih =>
    rw [chainAfter_eq, chainAfter_eq, Cursor.peek_extend hopen]
    split
    · next hpeek =>
      refine (h.advance hopen hstop hpeek).bind fun right next hnext hfinish => ?_
      simp only [Cursor.length_extend_lt]
      split
      · next hshorter => exact ih _ (hlength ▸ hshorter) _ hnext hfinish rfl
      · exact .ok hnext hfinish
    · exact .ok hopen hstop

theorem continues_chain (op : BinaryOperator) (h : Continues stop finish more operand) :
    Continues stop finish more (chain op operand) where
  stuck c hend hopening hstop := by
    rw [chain, h.stuck hend hopening hstop]
    rfl
  agrees c hopen hstop := (h.agrees hopen hstop).bind fun left next hnext hfinish =>
    agrees_chainAfter op h left hnext hfinish

theorem continues_comparison (h : Continues stop finish more operand) :
    Continues stop finish more (comparison operand) where
  stuck c hend hopening hstop := by
    rw [comparison, h.stuck hend hopening hstop]
    rfl
  agrees c hopen hstop := by
    refine (h.agrees hopen hstop).bind fun left next hnext hfinish => ?_
    simp only [Cursor.peek_extend hnext]
    cases hop : next.peek.bind comparison? with
    | none => exact .ok hnext hfinish
    | some op =>
      obtain ⟨token, hpeek, -⟩ := Option.bind_eq_some_iff.1 hop
      exact (h.advance hnext hfinish hpeek).bind fun right last hlast hfinish' =>
        .ok hlast hfinish'

theorem continues_choice (h : Continues stop finish more operand)
    (hterm : Continues stop finish more term) :
    Continues stop finish more (choice operand term) := by
  have hcondition := continues_chain .or (continues_chain .and (continues_comparison h))
  refine ⟨fun c hend hopening hstop => ?_, fun c hopen hstop => ?_⟩
  · rw [choice, hcondition.stuck hend hopening hstop]
    rfl
  · refine (hcondition.agrees hopen hstop).bind fun condition next hnext hfinish => ?_
    simp only [Cursor.peek_extend hnext]
    split
    · next hpeek =>
      refine (hterm.advance hnext hfinish hpeek).bind fun yes middle hmiddle hfinish => ?_
      refine .expect hmiddle hfinish fun hcolon hfinish => ?_
      have hno := hterm.of_breaksOff ((Cursor.breaksOff_advance_iff hcolon).2 hmiddle) hfinish
      exact hno.bind fun no last hlast hfinish => .ok hlast hfinish
    · exact .ok hnext hfinish

theorem agrees_itemsAfter (h : Continues stop finish more term) (found : List Term)
    (hopen : c.BreaksOff) (hstop : c.finish = stop) :
    Agrees stop more finish (itemsAfter term found c)
      (itemsAfter term found (c.extend more finish)) := by
  induction hlength : c.rest.length using Nat.strongRecOn generalizing c found with
  | _ length ih =>
    rw [itemsAfter_eq, itemsAfter_eq]
    refine (h.of_breaksOff hopen hstop).bind fun item next hnext hfinish => ?_
    simp only [Cursor.peek_extend hnext, Cursor.advance_extend hnext, Cursor.length_extend_lt]
    split
    · next hpeek =>
      have hfinish' := next.finish_advance.trans hfinish
      split
      · next hshorter =>
        have hopen' := (Cursor.breaksOff_advance_iff hpeek).2 hnext
        exact ih _ (hlength ▸ hshorter) _ hopen' hfinish' rfl
      · exact .ok (Cursor.breakOff_advance hnext hpeek rfl) hfinish'
    · exact .ok hnext hfinish

theorem itemsAfter_of_error {e : ExpressionError} (h : term c = .error e) (found : List Term) :
    itemsAfter term found c = .error e := by
  rw [itemsAfter, h]

/-- An opening bracket with nothing behind it sends the reader on to the next level. -/
theorem primary_stuck (h : Continues stop finish more term) (hend : c.advance.rest = [])
    (hopening : c.advance.last.token.isOpening = true) (hstop : c.finish = stop) :
    primary term c = .error ⟨stop, .tooDeep⟩ := by
  have hpeek : c.advance.peek ≠ some .rightBracket := by rw [Cursor.peek, hend]; exact nofun
  have hread := h.stuck hend hopening (c.finish_advance.trans hstop)
  cases hlast : c.advance.last.token with
  | leftParen =>
    simp only [primary, hlast, hread]
    rfl
  | leftBracket =>
    simp only [primary, hlast, if_neg hpeek, itemsAfter_of_error hread]
    rfl
  | _ => rw [hlast] at hopening; cases hopening

theorem agrees_primary (h : Continues stop finish more term) (hopen : BreakOff c.tokens)
    (hinside : BreakOff c.advance.tokens) (hstop : c.finish = stop) :
    Agrees stop more finish (primary term c) (primary term (c.extend more finish)) := by
  have hstop' := c.finish_advance.trans hstop
  unfold primary
  simp only [Cursor.advance_extend hopen, Cursor.last_extend, Cursor.peek_extend hinside]
  split
  · exact .ok hinside hstop'
  · exact .ok hinside hstop'
  · exact .ok hinside hstop'
  · exact .ok hinside hstop'
  · exact .ok hinside hstop'
  · refine (h.agrees hinside hstop').bind fun inner next hnext hfinish => ?_
    exact .expect hnext hfinish fun hclose hfinish =>
      .ok (Cursor.breakOff_advance hnext hclose rfl) hfinish
  · split
    · next hclosed =>
      rw [Cursor.advance_extend hinside]
      exact .ok (Cursor.breakOff_advance hinside hclosed rfl)
        (c.advance.finish_advance.trans hstop')
    · have hitems := agrees_itemsAfter h [] (Cursor.breaksOff_of_later (List.suffix_refl _) hinside)
        hstop'
      refine hitems.bind fun items next hnext hfinish => ?_
      exact .expect hnext hfinish fun hclose hfinish =>
        .ok (Cursor.breakOff_advance hnext hclose rfl) hfinish
  · exact .error _

theorem continues_primary (h : Continues stop finish more term) :
    Continues stop finish more (primary term) where
  stuck c hend hopening hstop := by
    have hstay : c.advance = c := by rw [Cursor.advance, hend]
    exact primary_stuck h (by rw [hstay, hend]) (by rw [hstay, hopening]) hstop
  agrees c hopen hstop := by
    have hafter := (Cursor.breaksOff_advance_iff (Cursor.peek_of_breakOff hopen)).2 hopen
    rcases Cursor.breaksOff_cases hafter with hinside | ⟨hend, hopening⟩
    · exact agrees_primary h hopen hinside hstop
    · rw [primary_stuck h hend hopening hstop]
      exact .stuck _

theorem agrees_dottedKey (hopen : BreakOff c.tokens) (hstop : c.finish = stop) :
    Agrees stop more finish (dottedKey c) (dottedKey (c.extend more finish)) := by
  have hpeek := Cursor.peek_of_breakOff hopen
  have hstop' := c.finish_advance.trans hstop
  unfold dottedKey
  simp only [Cursor.advance_extend hopen, Cursor.last_extend]
  split
  · next name hname => exact .ok (Cursor.breakOff_advance hopen (hname ▸ hpeek) rfl) hstop'
  · next value hvalue => exact .ok (Cursor.breakOff_advance hopen (hvalue ▸ hpeek) rfl) hstop'
  · exact .error _

theorem propertiesAfter_eq (term : TermReader) (target : Term) (c : Cursor) :
    propertiesAfter term target c =
      if c.peek = some .dot then dottedKey c.advance >>= fun read =>
        if read.2.rest.length < c.rest.length then
          propertiesAfter term (.property target read.1) read.2
        else .ok (.property target read.1, read.2)
      else if c.peek = some .leftBracket then term c.advance >>= fun read =>
        read.2.expect .rightBracket .propertyBracket >>= fun next =>
          if next.rest.length < c.rest.length then
            propertiesAfter term (.property target read.1) next
          else .ok (.property target read.1, next)
      else .ok (target, c) := by
  rw [propertiesAfter]
  split
  · cases dottedKey c.advance <;> rfl
  · split
    · cases hkey : term c.advance with
      | error e => rfl
      | ok read =>
        simp only [bind, Except.bind]
        cases read.2.expect .rightBracket .propertyBracket <;> rfl
    · rfl

theorem agrees_propertiesAfter (h : Continues stop finish more term) (target : Term)
    (hopen : BreakOff c.tokens) (hstop : c.finish = stop) :
    Agrees stop more finish (propertiesAfter term target c)
      (propertiesAfter term target (c.extend more finish)) := by
  induction hlength : c.rest.length using Nat.strongRecOn generalizing c target with
  | _ length ih =>
    -- Behind a key the loop goes on, with fewer tokens, in the same way on both sides.
    have hloop (key : Term) (next : Cursor) (hnext : BreakOff next.tokens)
        (hfinish : next.finish = stop) : Agrees stop more finish
          (if next.rest.length < c.rest.length then
            propertiesAfter term (.property target key) next
          else .ok (.property target key, next))
          (if (next.extend more finish).rest.length < (c.extend more finish).rest.length then
            propertiesAfter term (.property target key) (next.extend more finish)
          else .ok (.property target key, next.extend more finish)) := by
      simp only [Cursor.length_extend_lt]
      split
      · next hshorter => exact ih _ (hlength ▸ hshorter) _ hnext hfinish rfl
      · exact .ok hnext hfinish
    rw [propertiesAfter_eq, propertiesAfter_eq, Cursor.peek_extend hopen]
    split
    · next hpeek =>
      rw [Cursor.advance_extend hopen]
      exact (agrees_dottedKey (Cursor.breakOff_advance hopen hpeek rfl)
        (c.finish_advance.trans hstop)).bind hloop
    · split
      · next hpeek =>
        refine (h.advance hopen hstop hpeek).bind fun key middle hmiddle hfinish => ?_
        exact .expect hmiddle hfinish fun hclose hfinish =>
          hloop key middle.advance (Cursor.breakOff_advance hmiddle hclose rfl) hfinish
      · exact .ok hopen hstop

theorem continues_postfixes (h : Continues stop finish more term) :
    Continues stop finish more (postfixes term) where
  stuck c hend hopening hstop := by
    rw [postfixes, (continues_primary h).stuck hend hopening hstop]
    rfl
  agrees c hopen hstop := ((continues_primary h).agrees hopen hstop).bind
    fun target next hnext hfinish => agrees_propertiesAfter h target hnext hfinish

theorem continues_unary (h : Continues stop finish more term) {deeper : Option TermReader}
    (hdeeper : ∀ reader ∈ deeper, Continues stop finish more reader) :
    Continues stop finish more (unary term deeper) where
  stuck c hend hopening hstop := by
    have hpeek : c.peek ≠ some .not := by rw [Cursor.peek, hend]; exact nofun
    unfold unary
    rw [if_neg hpeek]
    exact (continues_postfixes h).stuck hend hopening hstop
  agrees c hopen hstop := by
    unfold unary
    rw [Cursor.peek_extend hopen]
    split
    · next hpeek =>
      cases deeper with
      | none =>
        have hinside := Cursor.breakOff_advance hopen hpeek rfl
        simp only [Cursor.advance_extend hopen, Cursor.fail, Cursor.location_extend hinside]
        exact .error _
      | some reader =>
        exact ((hdeeper reader rfl).advance hopen hstop hpeek).bind
          fun operand next hnext hfinish => .ok hnext hfinish
    · exact (continues_postfixes h).agrees hopen hstop

end TermReader

open TermReader

theorem Level.continues_ofDepth (n : Nat) :
    Continues stop finish more (ofDepth n).term ∧
      Continues stop finish more (ofDepth n).operand := by
  induction n with
  | zero =>
    have hterm : Continues stop finish more (ofDepth 0).term := by
      refine ⟨fun c hend hopening hstop => ?_, fun c hopen hstop => ?_⟩
      · simp only [ofDepth, Cursor.fail, Cursor.location, hend, hstop]
      · simp only [ofDepth, Cursor.fail, Cursor.location_extend hopen]
        exact .error _
    have hoperand : Continues stop finish more (unary (ofDepth 0).term none) :=
      continues_unary hterm fun reader hreader => by cases hreader
    exact ⟨hterm, hoperand⟩
  | succ n ih =>
    have hterm : Continues stop finish more (ofDepth (n + 1)).term := continues_choice ih.2 ih.1
    have hoperand : Continues stop finish more
        (unary (ofDepth (n + 1)).term (some (ofDepth n).operand)) := by
      refine continues_unary hterm fun reader hreader => ?_
      obtain rfl := Option.some.inj hreader
      exact ih.2
    exact ⟨hterm, hoperand⟩

/-! ### Expressions -/

namespace Expression

variable {c : Cursor}

theorem isOpening_of_optionName? {token : Token} {name : String}
    (h : optionName? token = some name) : token.isOpening = false := by
  cases token <;> first | rfl | cases h

theorem agrees_readOption (hopen : BreakOff c.tokens) (hstop : c.finish = stop) :
    Agrees stop more finish (readOption c) (readOption (c.extend more finish)) := by
  have hpeek := Cursor.peek_of_breakOff hopen
  have hstop' := c.finish_advance.trans hstop
  rw [readOption_eq, readOption_eq, Cursor.advance_extend hopen, Cursor.last_extend]
  cases hname : optionName c.advance.last with
  | error e => exact .error e
  | ok name =>
    rw [optionName_eq_ok] at hname
    have hinside := Cursor.breakOff_advance hopen hpeek (isOpening_of_optionName? hname)
    change Agrees stop more finish (if c.advance.peek = some .assign then _ else _)
      (if (c.advance.extend more finish).peek = some .assign then _ else _)
    rw [Cursor.peek_extend hinside]
    split
    · next hassign =>
      exact ((Level.continues_ofDepth maxNesting).1.advance hinside hstop' hassign).bind
        fun value next hnext hfinish => .ok hnext hfinish
    · exact .ok hinside hstop'

theorem agrees_optionsAfter (found : Entries Term) (hopen : BreakOff c.tokens)
    (hstop : c.finish = stop) :
    Agrees stop more finish (optionsAfter found c) (optionsAfter found (c.extend more finish)) := by
  induction hlength : c.rest.length using Nat.strongRecOn generalizing c found with
  | _ length ih =>
    rw [optionsAfter_eq, optionsAfter_eq]
    refine (agrees_readOption hopen hstop).bind fun option next hnext hfinish => ?_
    simp only [Cursor.peek_extend hnext, Cursor.advance_extend hnext, Cursor.length_extend_lt]
    split
    · next hpeek =>
      have hfinish' := next.finish_advance.trans hfinish
      have hinside := Cursor.breakOff_advance hnext hpeek rfl
      split
      · next hshorter => exact ih _ (hlength ▸ hshorter) _ hinside hfinish' rfl
      · exact .ok hinside hfinish'
    · exact .ok hnext hfinish

/-- If tokens break off behind an opening bracket, either this is reported as too deep nesting at
the end, or no longer tokens that begin with them are accepted. -/
theorem ofTokens_eq_tooDeep_or {tokens : List PlacedToken} (hopen : BreakOff (tokens.map (·.token)))
    (stop finish : Location) (more : List PlacedToken) :
    ofTokens ⟨tokens, stop⟩ = .error ⟨stop, .tooDeep⟩ ∨
      ∃ e, ofTokens ⟨tokens ++ more, finish⟩ = .error e := by
  cases tokens with
  | nil =>
    obtain ⟨bracket, hlast, -⟩ := hopen
    cases hlast
  | cons first rest =>
    have hroot : Agrees stop more finish
        (if first.token = .atSign then .ok (.null, ⟨first, first :: rest, stop⟩)
          else term ⟨first, first :: rest, stop⟩)
        (if first.token = .atSign then .ok (.null, ⟨first, first :: (rest ++ more), finish⟩)
          else term ⟨first, first :: (rest ++ more), finish⟩) := by
      split
      · exact Agrees.ok hopen rfl
      · exact (Level.continues_ofDepth maxNesting).1.agrees hopen rfl
    rw [ofTokens_cons, List.cons_append, ofTokens_cons]
    rcases hroot.outcome with
      hstuck | ⟨e, -, hother⟩ | ⟨root, middle, hmiddle, hstop, hfirst, hother⟩
    · rw [hstuck]
      exact .inl rfl
    · rw [hother]
      exact .inr ⟨e, rfl⟩
    rw [hfirst, hother]
    have htail : Agrees stop more finish
        (if middle.peek = some .atSign then optionsAfter [] middle.advance else .ok ([], middle))
        (if (middle.extend more finish).peek = some .atSign then
          optionsAfter [] (middle.extend more finish).advance
        else .ok ([], middle.extend more finish)) := by
      rw [Cursor.peek_extend hmiddle, Cursor.advance_extend hmiddle]
      split
      · next hpeek =>
        exact agrees_optionsAfter [] (Cursor.breakOff_advance hmiddle hpeek rfl)
          (middle.finish_advance.trans hstop)
      · exact .ok hmiddle hstop
    rcases htail.outcome with hstuck | ⟨e, -, hother⟩ | ⟨options, last, hlast, -, -, hother⟩
    · refine .inl ?_
      simp only [bind, Except.bind, hstuck]
    · refine .inr ⟨e, ?_⟩
      simp only [bind, Except.bind, hother]
    · -- The bracket is still there, and nothing takes it.
      have hpeek : (last.extend more finish).peek.isSome = true := by
        rw [Cursor.peek_extend hlast, Cursor.peek_of_breakOff hlast]
        rfl
      refine .inr ⟨⟨(last.extend more finish).location,
        .unexpected (last.extend more finish).peek⟩, ?_⟩
      simp only [bind, Except.bind, hother, if_pos hpeek]
      rfl

/-- Where an expression breaks off behind an opening bracket, too deep nesting is reported at the
end. -/
theorem ofTokens_of_beginning {tokens : TokenList} (hopen : BreakOff (tokens.tokens.map (·.token)))
    (hbegins : Beginning (tokens.tokens.map (·.token))) :
    ofTokens tokens = .error ⟨tokens.finish, .tooDeep⟩ := by
  obtain ⟨more, e, hderived⟩ := hbegins
  -- Wherever the further tokens stand, they are accepted together with those that are there.
  have hsplit : (tokens.tokens ++ more.map (PlacedToken.mk · tokens.finish)).map (·.token) =
      tokens.tokens.map (·.token) ++ more := by
    simp [Function.comp_def]
  have haccepted : ofTokens ⟨tokens.tokens ++ more.map (PlacedToken.mk · tokens.finish),
      tokens.finish⟩ = .ok e := ofTokens_eq_ok_of_derived (hsplit ▸ hderived)
  rcases ofTokens_eq_tooDeep_or hopen tokens.finish tokens.finish
    (more.map (PlacedToken.mk · tokens.finish)) with hdeep | ⟨other, hrefused⟩
  · exact hdeep
  · rw [haccepted] at hrefused
    cases hrefused

end Expression

end

namespace Expression

theorem parse_eq_ofTokens {here : Location} {body : List Char} {tokens : TokenList}
    (h : TokenList.ofChars here body = .ok tokens) : parse here body = ofTokens tokens := by
  rw [parse, h]
  rfl

/-- **Nesting.** If fewer tokens of a text begin a level than there are levels, too deep nesting is
reported just where the text breaks off behind an opening bracket and could have gone on to an
expression; it is reported at the end. -/
theorem parse_eq_tooDeep_iff {here : Location} {body : List Char} {tokens : TokenList}
    (htokens : TokenList.ofChars here body = .ok tokens)
    (hfew : (tokens.tokens.map (·.token)).countP Token.nests < maxNesting) (location : Location) :
    parse here body = .error ⟨location, .tooDeep⟩ ↔
      location = tokens.finish ∧ BreakOff (tokens.tokens.map (·.token)) ∧
        Beginning (tokens.tokens.map (·.token)) := by
  rw [parse_eq_ofTokens htokens]
  constructor
  · intro hread
    obtain ⟨hopen, hbegins⟩ := beginning_of_tooDeep hfew hread
    rw [ofTokens_of_beginning hopen hbegins] at hread
    exact ⟨(congrArg ExpressionError.location (Except.error.inj hread)).symm, hopen, hbegins⟩
  · rintro ⟨rfl, hopen, hbegins⟩
    exact ofTokens_of_beginning hopen hbegins

/-- A property between brackets whose key breaks off behind a negation and a parenthesis, three
tokens that begin a level. It could go on with a name and the two closing brackets. -/
theorem parse_eq_tooDeep_iff_key :
    ∃ tokens, TokenList.ofChars .start "x.y[!(".toList = .ok tokens ∧
      (tokens.tokens.map (·.token)).countP Token.nests = 3 ∧ 3 < maxNesting ∧
      parse .start "x.y[!(".toList = .error ⟨⟨1, 7⟩, .tooDeep⟩ := by
  obtain ⟨tokens, htokens, hcheck⟩ : ∃ tokens,
      TokenList.ofChars .start "x.y[!(".toList = .ok tokens ∧
        decide (tokens.tokens.map (·.token) = [.identifier "x", .dot, .identifier "y",
          .leftBracket, .not, .leftParen] ∧ tokens.finish = ⟨1, 7⟩) = true :=
    exists_of_any (by decide +kernel)
  obtain ⟨hnames, hfinish⟩ := of_decide_eq_true hcheck
  have hcount : (tokens.tokens.map (·.token)).countP Token.nests = 3 := by
    rw [hnames]
    decide
  have hbegins : Beginning (tokens.tokens.map (·.token)) := by
    obtain ⟨e, haccepted, -⟩ : ∃ e, ofTokens ⟨[.identifier "x", .dot, .identifier "y",
        .leftBracket, .not, .leftParen, .identifier "a", .rightParen, .rightBracket].map
          (PlacedToken.mk · .start), .start⟩ = .ok e ∧ e.options.isEmpty = true :=
      exists_of_any (by decide +kernel)
    rw [hnames]
    exact ⟨[.identifier "a", .rightParen, .rightBracket], e, derived_of_ofTokens haccepted⟩
  have hiff := parse_eq_tooDeep_iff htokens (by rw [hcount]; decide) ⟨1, 7⟩
  refine ⟨tokens, htokens, hcount, by decide, hiff.2 ⟨hfinish.symm, ?_, hbegins⟩⟩
  rw [hnames]
  exact ⟨_, rfl, rfl⟩

/-- A single parenthesis is reported as nesting that exceeds all levels. -/
theorem parse_paren_tooDeep :
    ∃ tokens, TokenList.ofChars .start "(".toList = .ok tokens ∧
      (tokens.tokens.map (·.token)).countP Token.nests = 1 ∧
      parse .start "(".toList = .error ⟨⟨1, 2⟩, .tooDeep⟩ ∧
      ExpressionFault.tooDeep.message = "Expression nesting exceeds 64 levels" := by
  obtain ⟨tokens, htokens, hcheck⟩ : ∃ tokens, TokenList.ofChars .start "(".toList = .ok tokens ∧
      decide (tokens = ⟨[⟨.leftParen, .start⟩], ⟨1, 2⟩⟩) = true :=
    exists_of_any (by decide +kernel)
  obtain rfl := of_decide_eq_true hcheck
  obtain ⟨e, haccepted, -⟩ : ∃ e, ofTokens ⟨[.leftParen, .null, .rightParen].map
      (PlacedToken.mk · .start), .start⟩ = .ok e ∧ e.options.isEmpty = true :=
    exists_of_any (by decide +kernel)
  refine ⟨_, htokens, rfl, (parse_eq_ofTokens htokens).trans ?_, by decide +kernel⟩
  exact ofTokens_of_beginning ⟨_, rfl, rfl⟩
    ⟨[.null, .rightParen], e, derived_of_ofTokens haccepted⟩

end Expression

end Stencil
