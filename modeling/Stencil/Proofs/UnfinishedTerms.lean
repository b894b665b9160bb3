import Stencil.Proofs.Grammar

/-!
# Terms that break off

Each level of nesting below the outermost one is begun behind a token of its own: an opening
parenthesis or bracket, a negation, or one of the two signs of a choice. So tokens with few of these
cannot use up all levels. There is one exception. A reader that is called where no tokens are left
sees the token taken last once more, and if this is an opening bracket, it goes down level by level
without taking anything. Then the tokens are those of a term that has begun and is not finished.

## Main definitions

* `Token.nests`: the tokens behind which a level of nesting begins
* `Begins`: tokens with which a term of a category begins
* `TermReader.ReportsUnfinished`: a reader runs out of levels only where a term breaks off

## Main results

* `Level.reportsUnfinished_ofDepth`: the readers of each level, with fewer such tokens than levels
* `Expression.beginning_of_tooDeep`: the expressions for which nesting is reported to be too deep
-/

namespace Stencil

/-! ### Tokens that break off -/

namespace Token

/-- Whether a level of nesting can begin behind a token. -/
def nests : Token → Bool
  | .leftParen => true
  | .leftBracket => true
  | .not => true
  | .question => true
  | .colon => true
  | _ => false

/-- Whether a token opens a bracket. -/
def isOpening : Token → Bool
  | .leftParen => true
  | .leftBracket => true
  | _ => false

/-- The last of the tokens opens a bracket. -/
def BreakOff (tokens : List Token) : Prop :=
  ∃ bracket, tokens.getLast? = some bracket ∧ bracket.isOpening = true

variable {tokens before : List Token} {token : Token}

theorem BreakOff.of_suffix (h : BreakOff tokens) (hlater : tokens <:+ before) :
    BreakOff before := by
  obtain ⟨bracket, hlast, hopening⟩ := h
  obtain ⟨first, rfl⟩ := hlater
  exact ⟨bracket, by rw [List.getLast?_append, hlast, Option.some_or], hopening⟩

/-- No more levels begin behind the later ones of some tokens than behind all of them. -/
theorem countP_nests_lt {few : Nat} (hlater : tokens <:+ before)
    (h : before.countP nests < few) : tokens.countP nests < few :=
  hlater.sublist.countP_le.trans_lt h

end Token

open Token (BreakOff)

namespace Cursor

variable {c next : Cursor} {token : Token}

/-- The token taken last and those still to be taken end in an opening bracket. -/
def BreaksOff (c : Cursor) : Prop :=
  BreakOff (c.last.token :: c.tokens)

theorem breaksOff_of_later {tokens : List Token} (hlater : tokens <:+ c.tokens)
    (h : BreakOff tokens) : c.BreaksOff :=
  h.of_suffix (hlater.trans (List.suffix_cons _ _))

theorem breaksOff_advance_iff (h : c.peek = some token) :
    c.advance.BreaksOff ↔ BreakOff c.tokens := by
  obtain ⟨htokens, hlast⟩ := tokens_of_peek h
  rw [BreaksOff, hlast, htokens]

/-- So it is for a cursor if it is so behind one of the tokens still to be taken. -/
theorem breaksOff_of_advance (hlater : next.tokens <:+ c.tokens) (hpeek : next.peek = some token)
    (h : next.advance.BreaksOff) : c.BreaksOff :=
  breaksOff_of_later hlater ((breaksOff_advance_iff hpeek).1 h)

theorem suffix_advance (c : Cursor) : c.advance.tokens <:+ c.tokens := by
  rcases c.advance_cases with ⟨-, hstay⟩ | htokens
  · exact ⟨[], congrArg tokens hstay⟩
  · rw [htokens]
    exact List.suffix_cons _ _

/-- A token behind which a level begins leaves fewer of them. -/
theorem countP_nests_advance {few : Nat} (hpeek : c.peek = some token) (htoken : token.nests = true)
    (h : c.tokens.countP Token.nests < few + 1) : c.advance.tokens.countP Token.nests < few := by
  rw [(tokens_of_peek hpeek).1, List.countP_cons_of_pos htoken] at h
  omega

theorem peek_of_expect {needed : Expectation} (h : c.expect token needed = .ok next) :
    c.peek = some token ∧ next = c.advance := by
  unfold expect at h
  split at h
  · next hpeek => exact ⟨hpeek, (Except.ok.inj h).symm⟩
  · cases h

/-- A token that is missing is no report of too deep nesting. -/
theorem expect_ne_tooDeep {needed : Expectation} {location : Location} :
    c.expect token needed ≠ .error ⟨location, .tooDeep⟩ := by
  intro h
  unfold expect at h
  split at h
  · cases h
  · cases h

end Cursor

/-- Two steps fail in the first one, or in the second one after what the first one gives. -/
theorem error_of_bind {ε α β : Type} {first : Except ε α} {second : α → Except ε β} {e : ε}
    (h : first >>= second = .error e) :
    first = .error e ∨ ∃ a, first = .ok a ∧ second a = .error e := by
  cases first with
  | error other => exact .inl (congrArg Except.error (Except.error.inj h))
  | ok a => exact .inr ⟨a, rfl, h⟩

/-- Tokens with which a term of a category begins. -/
def Begins (k : Category) (n : Nat) (tokens : List Token) : Prop :=
  ∃ more t, Derives k n (tokens ++ more) t

theorem Derives.null_disjunction (n : Nat) : Derives .disjunction n [.null] .null :=
  .conjunction (.comparison (.unary (.access (.primary (.atom rfl)))))

theorem Derives.null_term {n : Nat} (h : 0 < n) : Derives .term n [.null] .null := by
  cases n with
  | zero => cases h
  | succ n => exact .term (.null_disjunction n)

/-! ### The readers of terms -/

namespace TermReader

/-- Of tokens among which fewer than `few` begin a level, a reader reports too deep nesting only if
they break off behind an opening bracket, and then they begin a term of its category. -/
def ReportsUnfinished (k : Category) (n few : Nat) (reader : TermReader) : Prop :=
  ∀ ⦃c location⦄, c.Ready → c.tokens.countP Token.nests < few →
    reader c = .error ⟨location, .tooDeep⟩ → c.BreaksOff ∧ Begins k n c.tokens

variable {k j : Category} {n few : Nat} {operand term : TermReader} {c : Cursor}
  {location : Location}

/-- A reader that goes on after a term: the tokens break off in this term or behind it. -/
theorem ReportsUnfinished.bind {m : Nat} {first : TermReader}
    {next : Term × Cursor → Except ExpressionError (Term × Cursor)} (hyields : Yields j m first)
    (hfirst : ReportsUnfinished j m few first)
    (hsingle : ∀ {tokens t}, Derives j m tokens t → Derives k n tokens t)
    (hnext : ∀ {taken left rest location}, Derives j m taken left →
      rest.tokens.countP Token.nests < few → next (left, rest) = .error ⟨location, .tooDeep⟩ →
      BreakOff rest.tokens ∧ Begins k n (taken ++ rest.tokens)) :
    ReportsUnfinished k n few fun c => first c >>= next := by
  intro c location hready hfew hread
  rcases error_of_bind hread with hleft | ⟨⟨left, rest⟩, hleft, hread⟩
  · obtain ⟨hopen, more, t, hderived⟩ := hfirst hready hfew hleft
    exact ⟨hopen, more, t, hsingle hderived⟩
  · obtain ⟨taken, hc, hderived⟩ := hyields hready hleft
    have hlater : rest.tokens <:+ c.tokens := ⟨taken, hc.symm⟩
    obtain ⟨hopen, hbegins⟩ := hnext hderived (Token.countP_nests_lt hlater hfew) hread
    exact ⟨Cursor.breaksOff_of_later hlater hopen, hc ▸ hbegins⟩

/-- The loop over operands: one of those behind an operator breaks off. -/
theorem unfinished_of_chainAfter {op : BinaryOperator} (hyields : Yields j n operand)
    (hoperand : ReportsUnfinished j n few operand)
    (hjoin : ∀ {tokens others left right}, Derives k n tokens left → Derives j n others right →
      Derives k n (tokens ++ .operator op :: others) (.binary op left right))
    {left : Term} {before : List Token} (hleft : Derives k n before left)
    (hfew : c.tokens.countP Token.nests < few)
    (hread : chainAfter op operand left c = .error ⟨location, .tooDeep⟩) :
    BreakOff c.tokens ∧ Begins k n (before ++ c.tokens) := by
  fun_induction chainAfter op operand left c generalizing before with
  | case1 left c hpeek e hright =>
    obtain rfl := Except.error.inj hread
    obtain ⟨hc, -⟩ := Cursor.tokens_of_peek hpeek
    obtain ⟨hopen, more, t, hderived⟩ := hoperand (Cursor.ready_advance hpeek rfl)
      (Token.countP_nests_lt c.suffix_advance hfew) hright
    refine ⟨(Cursor.breaksOff_advance_iff hpeek).1 hopen, more, .binary op left t, ?_⟩
    rw [hc]
    simpa using hjoin hleft hderived
  | case2 left c hpeek right rest hright hshorter ih =>
    obtain ⟨hc, -⟩ := Cursor.tokens_of_peek hpeek
    obtain ⟨taken, hrest, hderived⟩ := hyields (Cursor.ready_advance hpeek rfl) hright
    rw [hc, hrest, ← List.cons_append] at hfew ⊢
    obtain ⟨hopen, hbegins⟩ := ih (hjoin hleft hderived)
      (Token.countP_nests_lt (List.suffix_append _ _) hfew) hread
    exact ⟨hopen.of_suffix (List.suffix_append _ _), by rwa [← List.append_assoc]⟩
  | case3 => cases hread
  | case4 => cases hread

theorem reportsUnfinished_chain {op : BinaryOperator} (hyields : Yields j n operand)
    (hoperand : ReportsUnfinished j n few operand)
    (hsingle : ∀ {tokens t}, Derives j n tokens t → Derives k n tokens t)
    (hjoin : ∀ {tokens others left right}, Derives k n tokens left → Derives j n others right →
      Derives k n (tokens ++ .operator op :: others) (.binary op left right)) :
    ReportsUnfinished k n few (chain op operand) :=
  .bind hyields hoperand hsingle fun hderived hfew hread =>
    unfinished_of_chainAfter hyields hoperand hjoin (hsingle hderived) hfew hread

theorem reportsUnfinished_comparison (hyields : Yields .unary n operand)
    (hoperand : ReportsUnfinished .unary n few operand) :
    ReportsUnfinished .comparison n few (comparison operand) := by
  refine .bind hyields hoperand .unary fun {taken left rest location} hderived hfew hread => ?_
  simp only at hread
  split at hread
  · cases hread
  · next op hop =>
    obtain ⟨token, hpeek, hcomparison⟩ := Option.bind_eq_some_iff.1 hop
    obtain ⟨rfl, hop⟩ := eq_of_comparison? hcomparison
    rcases error_of_bind hread with hright | ⟨⟨right, last⟩, -, hread⟩
    · obtain ⟨hopen, more, t, hother⟩ := hoperand (Cursor.ready_advance hpeek rfl)
        (Token.countP_nests_lt rest.suffix_advance hfew) hright
      refine ⟨(Cursor.breaksOff_advance_iff hpeek).1 hopen, more, .binary op left t, ?_⟩
      rw [(Cursor.tokens_of_peek hpeek).1]
      simpa using Derives.compare hop hderived hother
    · cases hread

/-- A choice breaks off in its condition or in one of its branches, each of which begins a level. -/
theorem reportsUnfinished_choice (hyields : Yields .unary n operand)
    (hoperand : ReportsUnfinished .unary n (n + 1) operand) (hyieldsTerm : Yields .term n term)
    (hterm : ReportsUnfinished .term n n term) :
    ReportsUnfinished .term (n + 1) (n + 1) (choice operand term) := by
  have hyieldsConjunction : Yields .conjunction n (chain .and (comparison operand)) :=
    yields_chain (yields_comparison hyields) .comparison .and
  have hconjunction := reportsUnfinished_chain (yields_comparison hyields)
    (reportsUnfinished_comparison hyields hoperand) Derives.comparison Derives.and
  have hyieldsDisjunction : Yields .disjunction n (chain .or (chain .and (comparison operand))) :=
    yields_chain hyieldsConjunction .conjunction .or
  have hdisjunction := reportsUnfinished_chain hyieldsConjunction hconjunction
    Derives.conjunction Derives.or
  refine .bind hyieldsDisjunction hdisjunction .term
    fun {taken condition rest location} hderived hfew hread => ?_
  simp only at hread
  split at hread
  · next hpeek =>
    obtain ⟨hrest, -⟩ := Cursor.tokens_of_peek hpeek
    have hready := Cursor.ready_advance hpeek rfl
    have hfew' : rest.advance.tokens.countP Token.nests < n :=
      Cursor.countP_nests_advance hpeek rfl hfew
    have hpos : 0 < n := Nat.zero_lt_of_lt hfew'
    rcases error_of_bind hread with hyes | ⟨⟨yes, middle⟩, hyes, hread⟩
    · obtain ⟨hopen, more, t, hthen⟩ := hterm hready hfew' hyes
      refine ⟨(Cursor.breaksOff_advance_iff hpeek).1 hopen, more ++ [.colon, .null],
        .choice condition t .null, ?_⟩
      rw [hrest]
      simpa using Derives.choice hderived hthen (.null_term hpos)
    obtain ⟨first, hfirst, hthen⟩ := hyieldsTerm hready hyes
    have hlater : middle.tokens <:+ rest.advance.tokens := ⟨first, hfirst.symm⟩
    rcases error_of_bind hread with hcolon | ⟨colon, hcolon, hread⟩
    · exact absurd hcolon Cursor.expect_ne_tooDeep
    obtain ⟨hpeekColon, rfl⟩ := Cursor.peek_of_expect hcolon
    rcases error_of_bind hread with hno | ⟨⟨no, last⟩, -, hread⟩
    · obtain ⟨hopen, more, t, helse⟩ := hterm (Cursor.ready_advance hpeekColon rfl)
        (Token.countP_nests_lt (middle.suffix_advance.trans hlater) hfew') hno
      refine ⟨((Cursor.breaksOff_advance_iff hpeekColon).1 hopen).of_suffix
        (hlater.trans rest.suffix_advance), more, .choice condition yes t, ?_⟩
      rw [hrest, hfirst, (Cursor.tokens_of_peek hpeekColon).1]
      simpa using Derives.choice hderived hthen helse
    · cases hread
  · cases hread

/-- The loop over items: one of them breaks off. -/
theorem unfinished_of_itemsAfter (hyields : Yields .term n term)
    (hterm : ReportsUnfinished .term n few term) {found : List Term} (hready : c.Ready)
    (hfew : c.tokens.countP Token.nests < few)
    (hread : itemsAfter term found c = .error ⟨location, .tooDeep⟩) :
    c.BreaksOff ∧ ∃ more items, Derives .items n (c.tokens ++ more) (.array items) := by
  fun_induction itemsAfter term found c with
  | case1 found c e hitem =>
    obtain rfl := Except.error.inj hread
    obtain ⟨hopen, more, t, hderived⟩ := hterm hready hfew hitem
    exact ⟨hopen, more, [t], .item hderived⟩
  | case2 found c item rest hitem hcomma hshorter ih =>
    obtain ⟨taken, hc, hderived⟩ := hyields hready hitem
    have hlater : rest.tokens <:+ c.tokens := ⟨taken, hc.symm⟩
    obtain ⟨hopen, more, items, hitems⟩ := ih (Cursor.ready_advance hcomma rfl)
      (Token.countP_nests_lt (rest.suffix_advance.trans hlater) hfew) hread
    refine ⟨Cursor.breaksOff_of_advance hlater hcomma hopen, more, item :: items, ?_⟩
    rw [hc, (Cursor.tokens_of_peek hcomma).1]
    simpa using Derives.comma hderived hitems
  | case3 => cases hread
  | case4 => cases hread

/-- Only a bracket sends the reader of primary terms to other readers. -/
theorem isOpening_of_primary (hread : primary term c = .error ⟨location, .tooDeep⟩) :
    c.advance.last.token.isOpening = true := by
  cases hfirst : c.advance.last.token with
  | leftParen | leftBracket => rfl
  | _ => simp only [primary, hfirst] at hread; cases hread

theorem begins_of_paren (hterm : ReportsUnfinished .term n n term)
    (hpeek : c.peek = some .leftParen) (hfew : c.advance.tokens.countP Token.nests < n)
    (hread : primary term c = .error ⟨location, .tooDeep⟩) :
    c.advance.BreaksOff ∧ Begins .primary n c.tokens := by
  obtain ⟨hc, hfirst⟩ := Cursor.tokens_of_peek hpeek
  simp only [primary, hfirst] at hread
  rcases error_of_bind hread with hinner | ⟨⟨inner, last⟩, -, hread⟩
  · obtain ⟨hopen, more, t, hderived⟩ := hterm (Cursor.ready_advance hpeek rfl) hfew hinner
    refine ⟨hopen, more ++ [.rightParen], t, ?_⟩
    rw [hc]
    simpa using Derives.paren hderived
  rcases error_of_bind hread with hclose | ⟨close, -, hread⟩
  · exact absurd hclose Cursor.expect_ne_tooDeep
  · cases hread

theorem begins_of_bracket (hyields : Yields .term n term) (hterm : ReportsUnfinished .term n n term)
    (hpeek : c.peek = some .leftBracket) (hfew : c.advance.tokens.countP Token.nests < n)
    (hread : primary term c = .error ⟨location, .tooDeep⟩) :
    c.advance.BreaksOff ∧ Begins .primary n c.tokens := by
  obtain ⟨hc, hfirst⟩ := Cursor.tokens_of_peek hpeek
  simp only [primary, hfirst] at hread
  split at hread
  · cases hread
  rcases error_of_bind hread with hitems | ⟨⟨items, last⟩, -, hread⟩
  · obtain ⟨hopen, more, items, hderived⟩ :=
      unfinished_of_itemsAfter hyields hterm (Cursor.ready_advance hpeek rfl) hfew hitems
    refine ⟨hopen, more ++ [.rightBracket], .array items, ?_⟩
    rw [hc]
    simpa using Derives.array hderived
  rcases error_of_bind hread with hclose | ⟨close, -, hread⟩
  · exact absurd hclose Cursor.expect_ne_tooDeep
  · cases hread

/-- A primary term breaks off between its brackets. Where no tokens are left, the bracket is the one
taken last, and any term may follow. -/
theorem reportsUnfinished_primary (hyields : Yields .term n term)
    (hterm : ReportsUnfinished .term n n term) :
    ReportsUnfinished .primary n (n + 1) (primary term) := by
  intro c location hready hfew hread
  have hopening := isOpening_of_primary hread
  rcases c.advance_cases with ⟨hend, hstay⟩ | hc
  · have htokens : c.tokens = [] := by rw [Cursor.tokens, hend, List.map_nil]
    rw [hstay] at hopening
    refine ⟨?_, [.null], .null, ?_⟩
    · rw [Cursor.BreaksOff, htokens]
      exact ⟨_, rfl, hopening⟩
    · rw [htokens]
      exact .atom rfl
  have hpeek : c.peek = some c.advance.last.token := Cursor.peek_of_tokens hc
  have hbegins : c.advance.BreaksOff ∧ Begins .primary n c.tokens := by
    cases hfirst : c.advance.last.token with
    | leftParen =>
      rw [hfirst] at hpeek
      exact begins_of_paren hterm hpeek (Cursor.countP_nests_advance hpeek rfl hfew) hread
    | leftBracket =>
      rw [hfirst] at hpeek
      exact begins_of_bracket hyields hterm hpeek (Cursor.countP_nests_advance hpeek rfl hfew) hread
    | _ => rw [hfirst] at hopening; cases hopening
  exact ⟨Cursor.breaksOff_of_advance (List.suffix_refl _) hpeek hbegins.1, hbegins.2⟩

theorem dottedKey_ne_tooDeep : dottedKey c ≠ .error ⟨location, .tooDeep⟩ := by
  intro h
  unfold dottedKey at h
  simp only at h
  split at h <;> cases h

/-- The loop over property accesses: a key between brackets breaks off. -/
theorem unfinished_of_propertiesAfter (hyields : Yields .term n term)
    (hterm : ReportsUnfinished .term n n term) {target : Term} {before : List Token}
    (htarget : Derives .access n before target) (hfew : c.tokens.countP Token.nests < n + 1)
    (hread : propertiesAfter term target c = .error ⟨location, .tooDeep⟩) :
    BreakOff c.tokens ∧ Begins .access n (before ++ c.tokens) := by
  fun_induction propertiesAfter term target c generalizing before with
  | case1 target c hdot e hkey =>
    obtain rfl := Except.error.inj hread
    exact absurd hkey dottedKey_ne_tooDeep
  | case2 target c hdot key rest hkey hshorter ih =>
    obtain ⟨taken, hc, hderived⟩ := exists_of_dottedKey hdot htarget hkey
    have hlater : rest.tokens <:+ c.tokens := ⟨_, hc.symm⟩
    obtain ⟨hopen, hbegins⟩ := ih hderived (Token.countP_nests_lt hlater hfew) hread
    refine ⟨hopen.of_suffix hlater, ?_⟩
    rw [hc]
    simpa using hbegins
  | case4 target c hdot hbracket e hkey =>
    obtain rfl := Except.error.inj hread
    obtain ⟨hopen, more, t, hderived⟩ := hterm (Cursor.ready_advance hbracket rfl)
      (Cursor.countP_nests_advance hbracket rfl hfew) hkey
    refine ⟨(Cursor.breaksOff_advance_iff hbracket).1 hopen, more ++ [.rightBracket],
      .property target t, ?_⟩
    rw [(Cursor.tokens_of_peek hbracket).1]
    simpa using Derives.bracket htarget hderived
  | case5 target c hdot hbracket key middle hkey e hclose =>
    obtain rfl := Except.error.inj hread
    exact absurd hclose Cursor.expect_ne_tooDeep
  | case6 target c hdot hbracket key middle hkey rest hclose hshorter ih =>
    obtain ⟨taken, hc, hderived⟩ := exists_of_bracketKey hyields hbracket htarget hkey hclose
    have hlater : rest.tokens <:+ c.tokens := ⟨_, hc.symm⟩
    obtain ⟨hopen, hbegins⟩ := ih hderived (Token.countP_nests_lt hlater hfew) hread
    refine ⟨hopen.of_suffix hlater, ?_⟩
    rw [hc]
    simpa using hbegins
  | case3 | case7 | case8 => cases hread

theorem reportsUnfinished_postfixes (hyields : Yields .term n term)
    (hterm : ReportsUnfinished .term n n term) :
    ReportsUnfinished .access n (n + 1) (postfixes term) :=
  .bind (yields_primary hyields) (reportsUnfinished_primary hyields hterm) .primary
    fun hderived hfew hread =>
      unfinished_of_propertiesAfter hyields hterm (.primary hderived) hfew hread

end TermReader

open TermReader

/-- With fewer tokens behind which levels begin than there are levels, the readers of each level run
out of levels only where a term breaks off. -/
theorem Level.reportsUnfinished_ofDepth (n : Nat) :
    ReportsUnfinished .term n n (ofDepth n).term ∧
      ReportsUnfinished .unary n (n + 1) (ofDepth n).operand := by
  induction n with
  | zero =>
    have hterm : ReportsUnfinished .term 0 0 (ofDepth 0).term :=
      fun c location hready hfew hread => absurd hfew (Nat.not_lt_zero _)
    refine ⟨hterm, fun c location hready hfew hread => ?_⟩
    simp only [ofDepth, unary] at hread
    split at hread
    · next hpeek =>
      exact absurd (Cursor.countP_nests_advance hpeek rfl hfew) (Nat.not_lt_zero _)
    · obtain ⟨hopen, more, t, hderived⟩ :=
        reportsUnfinished_postfixes (yields_ofDepth 0).1 hterm hready hfew hread
      exact ⟨hopen, more, t, .access hderived⟩
  | succ n ih =>
    obtain ⟨hyieldsTerm, hyields⟩ := yields_ofDepth n
    have hterm : ReportsUnfinished .term (n + 1) (n + 1) (ofDepth (n + 1)).term :=
      reportsUnfinished_choice hyields ih.2 hyieldsTerm ih.1
    refine ⟨hterm, fun c location hready hfew hread => ?_⟩
    simp only [ofDepth, unary] at hread
    split at hread
    · next hpeek =>
      rcases error_of_bind hread with hoperand | ⟨⟨operand, last⟩, -, hread⟩
      · obtain ⟨hopen, more, t, hderived⟩ := ih.2 (Cursor.ready_advance hpeek rfl)
          (Cursor.countP_nests_advance hpeek rfl hfew) hoperand
        refine ⟨Cursor.breaksOff_of_advance (List.suffix_refl _) hpeek hopen, more,
          .unary .not t, ?_⟩
        rw [(Cursor.tokens_of_peek hpeek).1]
        exact .not hderived
      · cases hread
    · obtain ⟨hopen, more, t, hderived⟩ :=
        reportsUnfinished_postfixes (yields_ofDepth (n + 1)).1 hterm hready hfew hread
      exact ⟨hopen, more, t, .access hderived⟩

/-! ### Expressions -/

namespace Expression

variable {c : Cursor} {location : Location}

/-- Tokens with which an expression begins. -/
def Beginning (tokens : List Token) : Prop :=
  ∃ more e, Derived (tokens ++ more) e

theorem derived_append {first second : List Token} {root : Term} {given : List (String × Term)}
    (hroot : DerivesRoot first root) (htail : DerivesTail second given) :
    Derived (first ++ second) ⟨root, Entries.ofList given⟩ :=
  ⟨first, second, given, rfl, hroot, htail, Entries.sorted_ofList given, Entries.find?_ofList given⟩

theorem optionName_ne_tooDeep (first : PlacedToken) :
    optionName first ≠ .error ⟨location, .tooDeep⟩ := by
  intro h
  unfold optionName at h
  split at h <;> cases h

theorem unfinished_of_readOption (hfew : c.tokens.countP Token.nests < maxNesting)
    (hread : readOption c = .error ⟨location, .tooDeep⟩) :
    BreakOff c.tokens ∧ ∃ more option, DerivesOption (c.tokens ++ more) option := by
  rw [readOption_eq] at hread
  rcases error_of_bind hread with hname | ⟨name, hname, hread⟩
  · exact absurd hname (optionName_ne_tooDeep _)
  rw [optionName_eq_ok] at hname
  split at hread
  · next hpeek =>
    obtain ⟨hassign, -⟩ := Cursor.tokens_of_peek hpeek
    have hc : c.tokens = c.advance.last.token :: c.advance.tokens :=
      Cursor.tokens_of_advance (by rw [hassign]; exact List.cons_ne_nil _ _)
    rcases error_of_bind hread with hvalue | ⟨⟨value, last⟩, -, hread⟩
    · obtain ⟨hopen, more, t, hderived⟩ :=
        (Level.reportsUnfinished_ofDepth maxNesting).1 (Cursor.ready_advance hpeek rfl)
          (Token.countP_nests_lt (c.advance.suffix_advance.trans c.suffix_advance) hfew) hvalue
      refine ⟨((Cursor.breaksOff_advance_iff hpeek).1 hopen).of_suffix c.suffix_advance,
        more, (name, t), ?_⟩
      rw [hc, hassign]
      exact .valued hname hderived
    · cases hread
  · cases hread

/-- The loop over options: the value of one of them breaks off. -/
theorem unfinished_of_optionsAfter {found : Entries Term}
    (hend : c.rest = [] → optionName? c.last.token = none)
    (hfew : c.tokens.countP Token.nests < maxNesting)
    (hread : optionsAfter found c = .error ⟨location, .tooDeep⟩) :
    BreakOff c.tokens ∧ ∃ more given, DerivesOptions (c.tokens ++ more) given := by
  fun_induction optionsAfter found c with
  | case1 found c e hoption =>
    obtain rfl := Except.error.inj hread
    obtain ⟨hopen, more, option, hderived⟩ := unfinished_of_readOption hfew hoption
    exact ⟨hopen, more, [option], .single hderived⟩
  | case2 found c name value rest hoption found' hcomma hshorter ih =>
    obtain ⟨taken, hc, hderived⟩ := exists_of_readOption hend hoption
    obtain ⟨hrest, hlast⟩ := Cursor.tokens_of_peek hcomma
    have hlater : rest.advance.tokens <:+ c.tokens := rest.suffix_advance.trans ⟨taken, hc.symm⟩
    obtain ⟨hopen, more, given, hgiven⟩ :=
      ih (fun _ => by rw [hlast]; rfl) (Token.countP_nests_lt hlater hfew) hread
    refine ⟨hopen.of_suffix hlater, more, (name, value) :: given, ?_⟩
    rw [hc, hrest]
    simpa using DerivesOptions.comma hderived hgiven
  | case3 => cases hread
  | case4 => cases hread

/-- With fewer tokens behind which levels begin than there are levels, too deep nesting is reported
only of expressions that break off behind an opening bracket. -/
theorem beginning_of_tooDeep {tokens : TokenList}
    (hfew : (tokens.tokens.map (·.token)).countP Token.nests < maxNesting)
    (hread : ofTokens tokens = .error ⟨location, .tooDeep⟩) :
    BreakOff (tokens.tokens.map (·.token)) ∧ Beginning (tokens.tokens.map (·.token)) := by
  obtain ⟨placed, finish⟩ := tokens
  cases placed with
  | nil => cases hread
  | cons first rest =>
    rw [ofTokens_cons] at hread
    rcases error_of_bind hread with hroot | ⟨⟨root, middle⟩, hroot, hread⟩
    · split at hroot
      · cases hroot
      · have hready : Cursor.Ready ⟨first, first :: rest, finish⟩ := fun hrest => by cases hrest
        obtain ⟨hopen, more, t, hderived⟩ :=
          (Level.reportsUnfinished_ofDepth maxNesting).1 hready hfew hroot
        -- The first token stands for the one taken last, so it is there twice.
        obtain ⟨bracket, hlast, hopening⟩ := hopen
        refine ⟨⟨bracket, hlast, hopening⟩, more, ⟨t, Entries.ofList []⟩, ?_⟩
        rw [← List.append_nil (_ ++ more)]
        exact derived_append (.term hderived) .missing
    obtain ⟨taken, htaken, hderived⟩ := exists_of_root hroot
    have hlater : middle.tokens <:+ (first :: rest).map (·.token) := ⟨taken, htaken.symm⟩
    rcases error_of_bind hread with hoptions | ⟨⟨options, last⟩, -, hread⟩
    · split at hoptions
      · next hpeek =>
        obtain ⟨hmiddle, hat⟩ := Cursor.tokens_of_peek hpeek
        have hlater' := middle.suffix_advance.trans hlater
        obtain ⟨hopen, more, given, hgiven⟩ := unfinished_of_optionsAfter
          (fun _ => by rw [hat]; rfl) (Token.countP_nests_lt hlater' hfew) hoptions
        refine ⟨hopen.of_suffix hlater', more, ⟨root, Entries.ofList given⟩, ?_⟩
        have htail := derived_append hderived (.options hgiven)
        rw [htaken, hmiddle]
        simpa using htail
      · cases hoptions
    · simp only at hread
      split at hread <;> cases hread

end Expression

end Stencil
