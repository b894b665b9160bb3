import Stencil.Proofs.ScopeStack
import Stencil.Proofs.TermReading

/-!
# The grammar of expressions

The grammar says which tokens stand for which expression. Operators of the same kind group to the
left, a missing root is the null literal, and of two options under one name the later one stays.
Terms and negations may be nested only so deep: that is a number which the rules count down.

What the readers accept is derived by the grammar. A reader that is called where no tokens are left
sees the token taken last once more. This is never one that a term can consist of; an opening
bracket sends the reader down to a deeper level, where the same happens again, until there is no
level left.

## Main definitions

* `Derives`: the tokens of a term, by category and with a number of levels
* `Expression.Derived`: the tokens of an expression
* `Cursor.Ready`: where no tokens are left, the one taken last is no term
* `TermReader.Yields`: what a reader accepts is derived

## Main results

* `Level.yields_ofDepth`: the readers of each level
* `Expression.derived_of_ofTokens`: what is accepted as an expression is derived
-/

namespace Stencil

variable {t : Term}

/-! ### Terms -/

/-- The parts of the grammar of terms, from the loosest to the tightest binding. -/
inductive Category where
  | term
  | disjunction
  | conjunction
  | comparison
  | unary
  | access
  | primary
  /-- Terms with commas between them, taken for the array of them. -/
  | items

/-- The term that a token is by itself. -/
def Token.atom? : Token → Option Term
  | .text value => some (.text value)
  | .number value => some (.number value)
  | .identifier name => some (.identifier name)
  | .boolean value => some (.boolean value)
  | .null => some .null
  | _ => none

/-- The tokens of a term, with at most so many levels of terms and negations inside each other. -/
inductive Derives : Category → Nat → List Token → Term → Prop where
  | term {n : Nat} {tokens : List Token} {t : Term} (h : Derives .disjunction n tokens t) :
      Derives .term (n + 1) tokens t
  | choice {n : Nat} {tokens first second : List Token} {condition yes no : Term}
      (hcondition : Derives .disjunction n tokens condition) (hyes : Derives .term n first yes)
      (hno : Derives .term n second no) :
      Derives .term (n + 1) (tokens ++ .question :: (first ++ .colon :: second))
        (.choice condition yes no)
  | conjunction {n : Nat} {tokens : List Token} {t : Term} (h : Derives .conjunction n tokens t) :
      Derives .disjunction n tokens t
  | or {n : Nat} {tokens others : List Token} {left right : Term}
      (hleft : Derives .disjunction n tokens left) (hright : Derives .conjunction n others right) :
      Derives .disjunction n (tokens ++ .operator .or :: others) (.binary .or left right)
  | comparison {n : Nat} {tokens : List Token} {t : Term} (h : Derives .comparison n tokens t) :
      Derives .conjunction n tokens t
  | and {n : Nat} {tokens others : List Token} {left right : Term}
      (hleft : Derives .conjunction n tokens left) (hright : Derives .comparison n others right) :
      Derives .conjunction n (tokens ++ .operator .and :: others) (.binary .and left right)
  | unary {n : Nat} {tokens : List Token} {t : Term} (h : Derives .unary n tokens t) :
      Derives .comparison n tokens t
  | compare {n : Nat} {op : BinaryOperator} {tokens others : List Token} {left right : Term}
      (hop : op ≠ .and ∧ op ≠ .or) (hleft : Derives .unary n tokens left)
      (hright : Derives .unary n others right) :
      Derives .comparison n (tokens ++ .operator op :: others) (.binary op left right)
  | access {n : Nat} {tokens : List Token} {t : Term} (h : Derives .access n tokens t) :
      Derives .unary n tokens t
  | not {n : Nat} {tokens : List Token} {t : Term} (h : Derives .unary n tokens t) :
      Derives .unary (n + 1) (.not :: tokens) (.unary .not t)
  | primary {n : Nat} {tokens : List Token} {t : Term} (h : Derives .primary n tokens t) :
      Derives .access n tokens t
  | dotName {n : Nat} {tokens : List Token} {t : Term} (name : String)
      (h : Derives .access n tokens t) :
      Derives .access n (tokens ++ [.dot, .identifier name]) (.property t (.text name))
  | dotNumber {n : Nat} {tokens : List Token} {t : Term} (value : Binary64)
      (h : Derives .access n tokens t) :
      Derives .access n (tokens ++ [.dot, .number value])
        (.property t (.text (Term.writeNumber value)))
  | bracket {n : Nat} {tokens others : List Token} {t key : Term}
      (h : Derives .access n tokens t) (hkey : Derives .term n others key) :
      Derives .access n (tokens ++ .leftBracket :: (others ++ [.rightBracket])) (.property t key)
  | atom {n : Nat} {token : Token} {t : Term} (h : token.atom? = some t) :
      Derives .primary n [token] t
  | paren {n : Nat} {tokens : List Token} {t : Term} (h : Derives .term n tokens t) :
      Derives .primary n (.leftParen :: (tokens ++ [.rightParen])) t
  | noItems {n : Nat} : Derives .primary n [.leftBracket, .rightBracket] (.array [])
  | array {n : Nat} {tokens : List Token} {items : List Term}
      (h : Derives .items n tokens (.array items)) :
      Derives .primary n (.leftBracket :: (tokens ++ [.rightBracket])) (.array items)
  | item {n : Nat} {tokens : List Token} {t : Term} (h : Derives .term n tokens t) :
      Derives .items n tokens (.array [t])
  | comma {n : Nat} {tokens others : List Token} {t : Term} {items : List Term}
      (h : Derives .term n tokens t) (hitems : Derives .items n others (.array items)) :
      Derives .items n (tokens ++ .comma :: others) (.array (t :: items))

/-- A term begins with a negation or with a token that begins a primary term. -/
theorem Derives.exists_cons {k : Category} {n : Nat} {tokens : List Token}
    (h : Derives k n tokens t) :
    ∃ first rest, tokens = first :: rest ∧
      (first.beginsPrimary = true ∨ first = .not ∧ k ≠ .access ∧ k ≠ .primary) := by
  induction h with
  | not h ih => exact ⟨_, _, rfl, .inr ⟨rfl, nofun, nofun⟩⟩
  | @atom n token t h =>
    refine ⟨_, _, rfl, .inl ?_⟩
    cases token <;> first | rfl | cases h
  | paren | noItems | array => exact ⟨_, _, rfl, .inl rfl⟩
  | term _ ih | conjunction _ ih | comparison _ ih | unary _ ih | access _ ih | item _ ih =>
    obtain ⟨first, rest, rfl, hfirst⟩ := ih
    exact ⟨first, rest, rfl, hfirst.imp_right fun h => ⟨h.1, nofun, nofun⟩⟩
  | primary _ ih =>
    obtain ⟨first, rest, rfl, hfirst⟩ := ih
    exact ⟨first, rest, rfl, hfirst.imp_right fun h => absurd rfl h.2.2⟩
  | dotName _ _ ih | dotNumber _ _ ih | bracket _ _ ih _ =>
    obtain ⟨first, rest, rfl, hfirst⟩ := ih
    exact ⟨first, _, rfl, hfirst.imp_right fun h => absurd rfl h.2.1⟩
  | choice _ _ _ ih _ _ | or _ _ ih _ | and _ _ ih _ | compare _ _ _ ih _ | comma _ _ ih _ =>
    obtain ⟨first, rest, rfl, hfirst⟩ := ih
    exact ⟨first, _, rfl, hfirst.imp_right fun h => ⟨h.1, nofun, nofun⟩⟩

theorem Derives.ne_nil {k : Category} {n : Nat} {tokens : List Token} (h : Derives k n tokens t) :
    tokens ≠ [] := by
  obtain ⟨first, rest, rfl, -⟩ := h.exists_cons
  exact List.cons_ne_nil first rest

/-! ### Expressions -/

namespace Expression

/-- The name of the option that begins with a token. -/
def optionName? : Token → Option String
  | .identifier name => some name
  | .operator .in => some BinaryOperator.in.symbol
  | _ => none

/-- The tokens of an option: a name and maybe a value. -/
inductive DerivesOption : List Token → String × Term → Prop where
  | bare {token : Token} {name : String} (h : optionName? token = some name) :
      DerivesOption [token] (name, .null)
  | valued {token : Token} {name : String} {tokens : List Token} {value : Term}
      (h : optionName? token = some name) (hvalue : Derives .term maxNesting tokens value) :
      DerivesOption (token :: .assign :: tokens) (name, value)

/-- The tokens of options with commas between them. -/
inductive DerivesOptions : List Token → List (String × Term) → Prop where
  | single {tokens : List Token} {option : String × Term} (h : DerivesOption tokens option) :
      DerivesOptions tokens [option]
  | comma {tokens others : List Token} {option : String × Term} {options : List (String × Term)}
      (h : DerivesOption tokens option) (hoptions : DerivesOptions others options) :
      DerivesOptions (tokens ++ .comma :: others) (option :: options)

/-- The tokens of a root, which may be missing. -/
inductive DerivesRoot : List Token → Term → Prop where
  | missing : DerivesRoot [] .null
  | term {tokens : List Token} {t : Term} (h : Derives .term maxNesting tokens t) :
      DerivesRoot tokens t

/-- The tokens behind a root: nothing, or an at sign and options. -/
inductive DerivesTail : List Token → List (String × Term) → Prop where
  | missing : DerivesTail [] []
  | options {tokens : List Token} {options : List (String × Term)}
      (h : DerivesOptions tokens options) : DerivesTail (.atSign :: tokens) options

/-- The tokens of an expression. Under each name there is the option that was given last. -/
def Derived (tokens : List Token) (e : Expression) : Prop :=
  ∃ first second given, tokens = first ++ second ∧ DerivesRoot first e.root ∧
    DerivesTail second given ∧ e.options.Sorted ∧
    ∀ name, e.options.find? name = given.reverse.lookup name

end Expression

/-! ### Options by name -/

namespace Entries

variable {α : Type} {entries others : Entries α}

theorem sorted_foldl_insert (given : List (String × α)) {found : Entries α} (h : Sorted found) :
    Sorted (given.foldl (fun sorted (name, value) => sorted.insert name value) found) := by
  induction given generalizing found with
  | nil => exact h
  | cons entry rest ih => exact ih h.insert

theorem sorted_ofList (given : List (String × α)) : Sorted (ofList given) :=
  sorted_foldl_insert given List.Pairwise.nil

/-- What was given last stands under a name, or what was there before. -/
theorem find?_foldl_insert (given : List (String × α)) (found : Entries α) (name : String) :
    find? (given.foldl (fun sorted (name, value) => sorted.insert name value) found) name =
      (given.reverse.lookup name).or (found.find? name) := by
  induction given generalizing found with
  | nil => rfl
  | cons entry rest ih =>
    obtain ⟨key, value⟩ := entry
    -- The first of the given values is the last place to look, before what was there.
    rw [List.foldl_cons, ih, find?_insert, List.reverse_cons, List.lookup_append, Option.or_assoc]
    by_cases hname : name = key
    · simp [hname]
    · simp [List.lookup_cons, hname, beq_eq_false_iff_ne.2 hname]

theorem find?_ofList (given : List (String × α)) (name : String) :
    (ofList given).find? name = given.reverse.lookup name :=
  (find?_foldl_insert given [] name).trans Option.or_none

theorem find?_eq_none_of_lt {name : String} (h : ∀ entry ∈ entries, name < entry.1) :
    entries.find? name = none := by
  cases hfind : entries.find? name with
  | none => rfl
  | some value => exact absurd (h _ (mem_of_find?_eq_some hfind)) (String.lt_irrefl name)

theorem Sorted.first_le {entry : String × α} {name : String} {value : α}
    (h : Sorted (entry :: entries)) (hfind : find? (entry :: entries) name = some value) :
    entry.1 ≤ name := by
  obtain rfl | hmem := List.mem_cons.1 (mem_of_find?_eq_some hfind)
  · exact String.le_refl _
  · exact String.not_lt.1 (String.lt_asymm ((List.pairwise_cons.1 h).1 _ hmem))

/-- Sorted entries are known by what is found in them. -/
theorem Sorted.eq_of_find?_eq (h : Sorted entries) (hothers : Sorted others)
    (hfind : ∀ name, entries.find? name = others.find? name) : entries = others := by
  induction entries generalizing others with
  | nil =>
    cases others with
    | nil => rfl
    | cons other _ =>
      have hname := hfind other.1
      rw [find?_cons, if_pos rfl] at hname
      cases hname
  | cons entry rest ih =>
    obtain ⟨hentry, hrest⟩ := List.pairwise_cons.1 h
    cases others with
    | nil =>
      have hname := hfind entry.1
      rw [find?_cons, if_pos rfl] at hname
      cases hname
    | cons other others =>
      obtain ⟨hother, hothers'⟩ := List.pairwise_cons.1 hothers
      -- Each of the two first names is found on the other side, so neither is the smaller one.
      have hname : entry.1 = other.1 :=
        String.le_antisymm
          (h.first_le ((hfind other.1).trans (by rw [find?_cons, if_pos rfl])))
          (hothers.first_le ((hfind entry.1).symm.trans (by rw [find?_cons, if_pos rfl])))
      have hvalue : entry.2 = other.2 := by
        have hfirst := hfind entry.1
        rw [find?_cons, if_pos rfl, find?_cons, if_pos hname] at hfirst
        exact Option.some.inj hfirst
      have hrests (name : String) : find? rest name = find? others name := by
        by_cases hfirst : name = entry.1
        · subst hfirst
          rw [find?_eq_none_of_lt hentry, find?_eq_none_of_lt (hname ▸ hother)]
        · have hlater := hfind name
          rwa [find?_cons, if_neg hfirst, find?_cons, if_neg (hname ▸ hfirst)] at hlater
      rw [Prod.ext hname hvalue, ih hrest hothers' hrests]

end Entries

/-! ### What readers accept -/

namespace Cursor

variable {c next : Cursor} {token : Token}

theorem tokens_of_peek (h : c.peek = some token) :
    c.tokens = token :: c.advance.tokens ∧ c.advance.last.token = token := by
  obtain ⟨after, htokens⟩ := List.head?_eq_some_iff.1 (c.peek_eq.symm.trans h)
  obtain ⟨hafter, hlast⟩ := advance_of_tokens htokens
  exact ⟨by rw [hafter, htokens], hlast⟩

/-- The cursor goes on by a token, or stays where it is, at the end. -/
theorem advance_cases (c : Cursor) :
    c.rest = [] ∧ c.advance = c ∨ c.tokens = c.advance.last.token :: c.advance.tokens := by
  obtain ⟨last, rest, finish⟩ := c
  cases rest with
  | nil => exact .inl ⟨rfl, rfl⟩
  | cons next rest => exact .inr rfl

theorem tokens_of_advance (h : c.advance.tokens ≠ []) :
    c.tokens = c.advance.last.token :: c.advance.tokens := by
  refine c.advance_cases.resolve_left fun hend => h ?_
  rw [hend.2, tokens, hend.1, List.map_nil]

theorem tokens_of_expect {needed : Expectation} (h : c.expect token needed = .ok next) :
    c.tokens = token :: next.tokens ∧ next.last.token = token := by
  unfold expect at h
  split at h
  · next hpeek =>
    obtain rfl := Except.ok.inj h
    exact tokens_of_peek hpeek
  · cases h

/-- Where no tokens are left, the one taken last is no term by itself. -/
def Ready (c : Cursor) : Prop :=
  c.rest = [] → c.last.token.atom? = none

theorem ready_advance (h : c.peek = some token) (htoken : token.atom? = none) :
    c.advance.Ready := by
  intro _
  rw [(tokens_of_peek h).2, htoken]

/-- What is left behind tokens that were taken is shorter, which the readers' loops ask for. -/
theorem length_lt_of_append {taken : List Token} (h : c.tokens = taken ++ next.tokens)
    (hne : taken ≠ []) : next.rest.length < c.rest.length := by
  have hpos := List.length_pos_iff.2 hne
  rw [← c.length_tokens, ← next.length_tokens, h, List.length_append]
  omega

end Cursor

namespace TermReader

variable {before : List Token} {c next : Cursor}

/-- What a reader accepts is derived in a category with a number of levels. -/
def Yields (k : Category) (n : Nat) (reader : TermReader) : Prop :=
  ∀ ⦃c t next⦄, c.Ready → reader c = .ok (t, next) →
    ∃ taken, c.tokens = taken ++ next.tokens ∧ Derives k n taken t

variable {k j : Category} {n : Nat} {operand term : TermReader}

/-- The loop over operands, which groups them to the left. -/
theorem exists_of_chainAfter {op : BinaryOperator} (hoperand : Yields j n operand)
    (hjoin : ∀ {tokens others left right}, Derives k n tokens left → Derives j n others right →
      Derives k n (tokens ++ .operator op :: others) (.binary op left right)) {left : Term}
    (hleft : Derives k n before left) (hread : chainAfter op operand left c = .ok (t, next)) :
    ∃ taken, c.tokens = taken ++ next.tokens ∧ Derives k n (before ++ taken) t := by
  fun_induction chainAfter op operand left c generalizing before with
  | case1 => cases hread
  | case2 left c hpeek right rest hright hshorter ih =>
    obtain ⟨hc, -⟩ := Cursor.tokens_of_peek hpeek
    obtain ⟨taken, hrest, hderived⟩ := hoperand (Cursor.ready_advance hpeek rfl) hright
    obtain ⟨more, hmore, hall⟩ := ih (hjoin hleft hderived) hread
    refine ⟨.operator op :: (taken ++ more), ?_, by simpa using hall⟩
    rw [hc, hrest, hmore, List.cons_append, List.append_assoc]
  | case3 left c hpeek right rest hright hlonger =>
    -- The operator has been taken, so the loop always goes on.
    obtain ⟨taken, hrest, -⟩ := hoperand (Cursor.ready_advance hpeek rfl) hright
    have hc : c.tokens = .operator op :: taken ++ rest.tokens := by
      rw [(Cursor.tokens_of_peek hpeek).1, hrest, List.cons_append]
    exact absurd (Cursor.length_lt_of_append hc (List.cons_ne_nil _ _)) hlonger
  | case4 left c hpeek =>
    obtain ⟨rfl, rfl⟩ := ok_mk_inj hread
    exact ⟨[], rfl, by rwa [List.append_nil]⟩

theorem yields_chain {op : BinaryOperator} (hoperand : Yields j n operand)
    (hsingle : ∀ {tokens t}, Derives j n tokens t → Derives k n tokens t)
    (hjoin : ∀ {tokens others left right}, Derives k n tokens left → Derives j n others right →
      Derives k n (tokens ++ .operator op :: others) (.binary op left right)) :
    Yields k n (chain op operand) := by
  intro c t next hready hread
  obtain ⟨⟨left, rest⟩, hleft, hread⟩ := exists_of_bind_eq_ok hread
  obtain ⟨taken, hc, hderived⟩ := hoperand hready hleft
  obtain ⟨more, hrest, hall⟩ := exists_of_chainAfter hoperand hjoin (hsingle hderived) hread
  exact ⟨taken ++ more, by rw [hc, hrest, List.append_assoc], hall⟩

theorem eq_of_comparison? {token : Token} {op : BinaryOperator} (h : comparison? token = some op) :
    token = .operator op ∧ op ≠ .and ∧ op ≠ .or := by
  cases token with
  | operator other => cases other <;> cases h <;> simp
  | _ => cases h

theorem yields_comparison (hoperand : Yields .unary n operand) :
    Yields .comparison n (comparison operand) := by
  intro c t next hready hread
  obtain ⟨⟨left, rest⟩, hleft, hread⟩ := exists_of_bind_eq_ok hread
  obtain ⟨taken, hc, hderived⟩ := hoperand hready hleft
  simp only at hread
  split at hread
  · obtain ⟨rfl, rfl⟩ := ok_mk_inj hread
    exact ⟨taken, hc, .unary hderived⟩
  · next op hop =>
    obtain ⟨token, hpeek, hcomparison⟩ := Option.bind_eq_some_iff.1 hop
    obtain ⟨rfl, hop⟩ := eq_of_comparison? hcomparison
    obtain ⟨⟨right, last⟩, hright, hread⟩ := exists_of_bind_eq_ok hread
    obtain ⟨rfl, rfl⟩ := ok_mk_inj hread
    obtain ⟨more, hrest, hother⟩ := hoperand (Cursor.ready_advance hpeek rfl) hright
    refine ⟨taken ++ .operator op :: more, ?_, .compare hop hderived hother⟩
    rw [hc, (Cursor.tokens_of_peek hpeek).1, hrest, List.append_assoc, List.cons_append]

theorem yields_choice (hoperand : Yields .unary n operand) (hterm : Yields .term n term) :
    Yields .term (n + 1) (choice operand term) := by
  intro c t next hready hread
  have hconjunction : Yields .conjunction n (chain .and (comparison operand)) :=
    yields_chain (yields_comparison hoperand) .comparison .and
  have hdisjunction : Yields .disjunction n (chain .or (chain .and (comparison operand))) :=
    yields_chain hconjunction .conjunction .or
  obtain ⟨⟨condition, rest⟩, hcondition, hread⟩ := exists_of_bind_eq_ok hread
  obtain ⟨taken, hc, hderived⟩ := hdisjunction hready hcondition
  simp only at hread
  split at hread
  · next hpeek =>
    obtain ⟨⟨yes, middle⟩, hyes, hread⟩ := exists_of_bind_eq_ok hread
    obtain ⟨colon, hcolon, hread⟩ := exists_of_bind_eq_ok hread
    obtain ⟨⟨no, last⟩, hno, hread⟩ := exists_of_bind_eq_ok hread
    obtain ⟨rfl, rfl⟩ := ok_mk_inj hread
    obtain ⟨first, hfirst, hthen⟩ := hterm (Cursor.ready_advance hpeek rfl) hyes
    obtain ⟨hmiddle, hlast⟩ := Cursor.tokens_of_expect hcolon
    -- The colon is no term, so the second branch has tokens of its own.
    have hready' : colon.Ready := fun _ => by rw [hlast]; rfl
    obtain ⟨second, hsecond, helse⟩ := hterm hready' hno
    refine ⟨taken ++ .question :: (first ++ .colon :: second), ?_, .choice hderived hthen helse⟩
    rw [hc, (Cursor.tokens_of_peek hpeek).1, hfirst, hmiddle, hsecond]
    simp
  · obtain ⟨rfl, rfl⟩ := ok_mk_inj hread
    exact ⟨taken, hc, .term hderived⟩

/-- The loop over items. -/
theorem exists_of_itemsAfter (hterm : Yields .term n term) {found all : List Term}
    (hready : c.Ready) (hread : itemsAfter term found c = .ok (all, next)) :
    ∃ taken items, c.tokens = taken ++ next.tokens ∧ all = found.reverse ++ items ∧
      Derives .items n taken (.array items) := by
  fun_induction itemsAfter term found c with
  | case1 => cases hread
  | case2 found c item rest hitem hcomma hshorter ih =>
    obtain ⟨taken, hc, hderived⟩ := hterm hready hitem
    obtain ⟨more, items, hmore, rfl, hitems⟩ := ih (Cursor.ready_advance hcomma rfl) hread
    refine ⟨taken ++ .comma :: more, item :: items, ?_, by simp, .comma hderived hitems⟩
    rw [hc, (Cursor.tokens_of_peek hcomma).1, hmore, List.append_assoc, List.cons_append]
  | case3 found c item rest hitem hcomma hlonger =>
    -- The comma has been taken, so the loop always goes on.
    obtain ⟨taken, hc, -⟩ := hterm hready hitem
    rw [(Cursor.tokens_of_peek hcomma).1, List.append_cons] at hc
    exact absurd (Cursor.length_lt_of_append hc (List.concat_ne_nil _ _)) hlonger
  | case4 found c item rest hitem hcomma =>
    obtain ⟨taken, hc, hderived⟩ := hterm hready hitem
    obtain ⟨rfl, rfl⟩ := ok_mk_inj hread
    exact ⟨taken, [item], hc, List.reverse_cons, .item hderived⟩

theorem primary_of_atom (h : c.advance.last.token.atom? = some t) :
    primary term c = .ok (t, c.advance) := by
  unfold primary
  simp only
  cases htoken : c.advance.last.token <;> rw [htoken] at h <;> cases h <;> rfl

/-- Where no tokens are left, nothing can be derived behind a bracket that is seen again. -/
theorem tokens_eq_cons_of_derives {last : Cursor} {taken : List Token}
    (h : c.advance.tokens = taken ++ last.tokens) (hderived : Derives k n taken t) :
    c.tokens = c.advance.last.token :: c.advance.tokens := by
  refine Cursor.tokens_of_advance ?_
  rw [h]
  exact List.append_ne_nil_of_left_ne_nil hderived.ne_nil _

/-- What is accepted between brackets. -/
theorem exists_of_brackets (hterm : Yields .term n term) (hready : c.advance.Ready)
    (hfirst : c.advance.last.token = .leftBracket) (hread : primary term c = .ok (t, next)) :
    ∃ taken, c.tokens = taken ++ next.tokens ∧ Derives .primary n taken t := by
  simp only [primary, hfirst] at hread
  split at hread
  · next hpeek =>
    obtain ⟨rfl, rfl⟩ := ok_mk_inj hread
    obtain ⟨hadvance, -⟩ := Cursor.tokens_of_peek hpeek
    refine ⟨[.leftBracket, .rightBracket], ?_, .noItems⟩
    rw [Cursor.tokens_of_advance (by rw [hadvance]; exact List.cons_ne_nil _ _), hfirst, hadvance]
    rfl
  · obtain ⟨⟨items, last⟩, hitems, hread⟩ := exists_of_bind_eq_ok hread
    obtain ⟨close, hclose, hread⟩ := exists_of_bind_eq_ok hread
    obtain ⟨rfl, rfl⟩ := ok_mk_inj hread
    obtain ⟨taken, found, hadvance, rfl, hderived⟩ := exists_of_itemsAfter hterm hready hitems
    refine ⟨.leftBracket :: (taken ++ [.rightBracket]), ?_, .array hderived⟩
    rw [tokens_eq_cons_of_derives hadvance hderived, hfirst, hadvance,
      (Cursor.tokens_of_expect hclose).1]
    simp

theorem exists_of_paren (hterm : Yields .term n term) (hready : c.advance.Ready)
    (hfirst : c.advance.last.token = .leftParen) (hread : primary term c = .ok (t, next)) :
    ∃ taken, c.tokens = taken ++ next.tokens ∧ Derives .primary n taken t := by
  simp only [primary, hfirst] at hread
  obtain ⟨⟨inner, last⟩, hinner, hread⟩ := exists_of_bind_eq_ok hread
  obtain ⟨close, hclose, hread⟩ := exists_of_bind_eq_ok hread
  obtain ⟨rfl, rfl⟩ := ok_mk_inj hread
  obtain ⟨taken, hadvance, hderived⟩ := hterm hready hinner
  refine ⟨.leftParen :: (taken ++ [.rightParen]), ?_, .paren hderived⟩
  rw [tokens_eq_cons_of_derives hadvance hderived, hfirst, hadvance,
    (Cursor.tokens_of_expect hclose).1]
  simp

theorem yields_primary (hterm : Yields .term n term) : Yields .primary n (primary term) := by
  intro c t next hready hread
  cases hatom : c.advance.last.token.atom? with
  | some u =>
    rw [primary_of_atom hatom] at hread
    obtain ⟨rfl, rfl⟩ := ok_mk_inj hread
    refine ⟨[c.advance.last.token], ?_, .atom hatom⟩
    -- At the end the cursor stays, and the token seen again would be no term.
    refine c.advance_cases.resolve_left fun hend => ?_
    rw [hend.2, hready hend.1] at hatom
    cases hatom
  | none =>
    have hinside : c.advance.Ready := fun _ => hatom
    cases hfirst : c.advance.last.token with
    | leftParen => exact exists_of_paren hterm hinside hfirst hread
    | leftBracket => exact exists_of_brackets hterm hinside hfirst hread
    | text | number | identifier | boolean | null => rw [hfirst] at hatom; cases hatom
    | _ => simp only [primary, hfirst] at hread; cases hread

theorem exists_of_dottedKey {key : Term} (hpeek : c.peek = some .dot)
    (hbefore : Derives .access n before t) (hread : dottedKey c.advance = .ok (key, next)) :
    ∃ taken, c.tokens = .dot :: taken ++ next.tokens ∧
      Derives .access n (before ++ .dot :: taken) (.property t key) := by
  obtain ⟨hc, hdot⟩ := Cursor.tokens_of_peek hpeek
  unfold dottedKey at hread
  simp only at hread
  rcases c.advance.advance_cases with hend | hadvance
  · -- The dot is the last token, and would be taken for the name.
    simp only [hend.2, hdot] at hread
    cases hread
  · rw [hc, hadvance]
    split at hread
    · next name hname =>
      obtain ⟨rfl, rfl⟩ := ok_mk_inj hread
      exact ⟨[.identifier name], by rw [hname]; rfl, .dotName name hbefore⟩
    · next value hvalue =>
      obtain ⟨rfl, rfl⟩ := ok_mk_inj hread
      exact ⟨[.number value], by rw [hvalue]; rfl, .dotNumber value hbefore⟩
    · cases hread

theorem exists_of_bracketKey (hterm : Yields .term n term) {middle : Cursor} {key : Term}
    (hpeek : c.peek = some .leftBracket) (hbefore : Derives .access n before t)
    (hread : term c.advance = .ok (key, middle))
    (hclose : middle.expect .rightBracket .propertyBracket = .ok next) :
    ∃ taken, c.tokens = .leftBracket :: taken ++ next.tokens ∧
      Derives .access n (before ++ .leftBracket :: taken) (.property t key) := by
  obtain ⟨taken, hadvance, hkey⟩ := hterm (Cursor.ready_advance hpeek rfl) hread
  refine ⟨taken ++ [.rightBracket], ?_, .bracket hbefore hkey⟩
  rw [(Cursor.tokens_of_peek hpeek).1, hadvance, (Cursor.tokens_of_expect hclose).1]
  simp

/-- The loop over property accesses. -/
theorem exists_of_propertiesAfter (hterm : Yields .term n term) {target : Term}
    (htarget : Derives .access n before target)
    (hread : propertiesAfter term target c = .ok (t, next)) :
    ∃ taken, c.tokens = taken ++ next.tokens ∧ Derives .access n (before ++ taken) t := by
  fun_induction propertiesAfter term target c generalizing before with
  | case1 => cases hread
  | case2 target c hdot key rest hkey hshorter ih =>
    obtain ⟨taken, hc, hderived⟩ := exists_of_dottedKey hdot htarget hkey
    obtain ⟨more, hmore, hall⟩ := ih hderived hread
    refine ⟨.dot :: (taken ++ more), ?_, by simpa using hall⟩
    rw [hc, hmore, List.cons_append, List.cons_append, List.append_assoc]
  | case3 target c hdot key rest hkey hlonger =>
    obtain ⟨taken, hc, -⟩ := exists_of_dottedKey hdot htarget hkey
    exact absurd (Cursor.length_lt_of_append hc (List.cons_ne_nil _ _)) hlonger
  | case4 => cases hread
  | case5 => cases hread
  | case6 target c hdot hbracket key middle hkey rest hclose hshorter ih =>
    obtain ⟨taken, hc, hderived⟩ := exists_of_bracketKey hterm hbracket htarget hkey hclose
    obtain ⟨more, hmore, hall⟩ := ih hderived hread
    refine ⟨.leftBracket :: (taken ++ more), ?_, by simpa using hall⟩
    rw [hc, hmore, List.cons_append, List.cons_append, List.append_assoc]
  | case7 target c hdot hbracket key middle hkey rest hclose hlonger =>
    obtain ⟨taken, hc, -⟩ := exists_of_bracketKey hterm hbracket htarget hkey hclose
    exact absurd (Cursor.length_lt_of_append hc (List.cons_ne_nil _ _)) hlonger
  | case8 target c hdot hbracket =>
    obtain ⟨rfl, rfl⟩ := ok_mk_inj hread
    exact ⟨[], rfl, by rwa [List.append_nil]⟩

theorem yields_postfixes (hterm : Yields .term n term) : Yields .access n (postfixes term) := by
  intro c t next hready hread
  obtain ⟨⟨target, rest⟩, htarget, hread⟩ := exists_of_bind_eq_ok hread
  obtain ⟨taken, hc, hderived⟩ := yields_primary hterm hready htarget
  obtain ⟨more, hrest, hall⟩ := exists_of_propertiesAfter hterm (.primary hderived) hread
  exact ⟨taken ++ more, by rw [hc, hrest, List.append_assoc], hall⟩

end TermReader

open TermReader

/-- What the readers of each level accept is derived with so many levels. -/
theorem Level.yields_ofDepth (n : Nat) :
    Yields .term n (ofDepth n).term ∧ Yields .unary n (ofDepth n).operand := by
  induction n with
  | zero =>
    -- No level is left: the reader of terms accepts nothing, and a negation has no reader.
    have hterm : Yields .term 0 (ofDepth 0).term := fun c t next hready hread => by cases hread
    refine ⟨hterm, fun c t next hready hread => ?_⟩
    simp only [ofDepth, unary] at hread
    split at hread
    · cases hread
    · obtain ⟨taken, hc, hderived⟩ := yields_postfixes hterm hready hread
      exact ⟨taken, hc, .access hderived⟩
  | succ n ih =>
    have hterm : Yields .term (n + 1) (ofDepth (n + 1)).term := yields_choice ih.2 ih.1
    refine ⟨hterm, fun c t next hready hread => ?_⟩
    simp only [ofDepth, unary] at hread
    split at hread
    · next hpeek =>
      obtain ⟨⟨operand, last⟩, hoperand, hread⟩ := exists_of_bind_eq_ok hread
      obtain ⟨rfl, rfl⟩ := ok_mk_inj hread
      obtain ⟨taken, hc, hderived⟩ := ih.2 (Cursor.ready_advance hpeek rfl) hoperand
      refine ⟨.not :: taken, ?_, .not hderived⟩
      rw [(Cursor.tokens_of_peek hpeek).1, hc, List.cons_append]
    · obtain ⟨taken, hc, hderived⟩ := yields_postfixes hterm hready hread
      exact ⟨taken, hc, .access hderived⟩

namespace Expression

/-- The name of an option that begins with a token. -/
def optionName (first : PlacedToken) : Except ExpressionError String :=
  match first.token with
  | .identifier name => .ok name
  | .operator .in => .ok BinaryOperator.in.symbol
  | token => .error ⟨first.location, .noOptionName token⟩

theorem readOption_eq (c : Cursor) :
    readOption c = optionName c.advance.last >>= fun name =>
      if c.advance.peek = some .assign then
        term c.advance.advance >>= fun (value, next) => .ok ((name, value), next)
      else .ok ((name, .null), c.advance) := by
  unfold readOption optionName
  simp only
  cases c.advance.last.token with
  | operator op => cases op <;> rfl
  | _ => rfl

theorem ofTokens_cons (first : PlacedToken) (rest : List PlacedToken) (finish : Location) :
    ofTokens ⟨first :: rest, finish⟩ =
      (if first.token = .atSign then .ok (.null, ⟨first, first :: rest, finish⟩)
        else term ⟨first, first :: rest, finish⟩) >>= fun (root, c) =>
      (if c.peek = some .atSign then optionsAfter [] c.advance else .ok ([], c)) >>=
        fun (options, c) =>
      if c.peek.isSome then c.fail (.unexpected c.peek) else .ok ⟨root, options⟩ := by
  unfold ofTokens
  simp only
  split
  · dsimp [bind, Except.bind]
    split <;> rfl
  · congr
    funext x
    split <;> rfl

theorem optionName_eq_ok {first : PlacedToken} {name : String} :
    optionName first = .ok name ↔ optionName? first.token = some name := by
  obtain ⟨token, location⟩ := first
  unfold optionName optionName?
  cases token with
  | identifier => simp
  | operator op => cases op <;> simp
  | _ => simp

theorem exists_of_readOption {c next : Cursor} {option : String × Term}
    (hend : c.rest = [] → optionName? c.last.token = none)
    (hread : readOption c = .ok (option, next)) :
    ∃ taken, c.tokens = taken ++ next.tokens ∧ DerivesOption taken option := by
  rw [readOption_eq] at hread
  obtain ⟨name, hname, hread⟩ := exists_of_bind_eq_ok hread
  rw [optionName_eq_ok] at hname
  have hc : c.tokens = c.advance.last.token :: c.advance.tokens := by
    refine c.advance_cases.resolve_left fun hstay => ?_
    rw [hstay.2, hend hstay.1] at hname
    cases hname
  split at hread
  · next hpeek =>
    obtain ⟨⟨value, last⟩, hvalue, hread⟩ := exists_of_bind_eq_ok hread
    obtain ⟨rfl, rfl⟩ := ok_mk_inj hread
    obtain ⟨taken, hadvance, hderived⟩ :=
      (Level.yields_ofDepth maxNesting).1 (Cursor.ready_advance hpeek rfl) hvalue
    refine ⟨c.advance.last.token :: .assign :: taken, ?_, .valued hname hderived⟩
    rw [hc, (Cursor.tokens_of_peek hpeek).1, hadvance]
    rfl
  · obtain ⟨rfl, rfl⟩ := ok_mk_inj hread
    exact ⟨[c.advance.last.token], hc, .bare hname⟩

/-- The loop over options. -/
theorem exists_of_optionsAfter {c next : Cursor} {found options : Entries Term}
    (hend : c.rest = [] → optionName? c.last.token = none)
    (hread : optionsAfter found c = .ok (options, next)) :
    ∃ taken given, c.tokens = taken ++ next.tokens ∧ DerivesOptions taken given ∧
      options = given.foldl (fun sorted (name, value) => sorted.insert name value) found := by
  fun_induction optionsAfter found c with
  | case1 => cases hread
  | case2 found c name value rest hoption found' hcomma hshorter ih =>
    obtain ⟨taken, hc, hderived⟩ := exists_of_readOption hend hoption
    obtain ⟨hrest, hlast⟩ := Cursor.tokens_of_peek hcomma
    obtain ⟨more, given, hmore, hgiven, rfl⟩ := ih (fun _ => by rw [hlast]; rfl) hread
    refine ⟨taken ++ .comma :: more, (name, value) :: given, ?_, .comma hderived hgiven, rfl⟩
    rw [hc, hrest, hmore, List.append_assoc, List.cons_append]
  | case3 found c name value rest hoption found' hcomma hlonger =>
    -- The comma has been taken, so the loop always goes on.
    obtain ⟨taken, hc, -⟩ := exists_of_readOption hend hoption
    rw [(Cursor.tokens_of_peek hcomma).1, List.append_cons] at hc
    exact absurd (Cursor.length_lt_of_append hc (List.concat_ne_nil _ _)) hlonger
  | case4 found c name value rest hoption found' hcomma =>
    obtain ⟨taken, hc, hderived⟩ := exists_of_readOption hend hoption
    obtain ⟨rfl, rfl⟩ := ok_mk_inj hread
    exact ⟨taken, [(name, value)], hc, .single hderived, rfl⟩

/-- What is taken for the root; with an at sign in front there is none. -/
theorem exists_of_root {first : PlacedToken} {rest : List PlacedToken} {finish : Location}
    {root : Term} {middle : Cursor}
    (hread : (if first.token = .atSign then .ok (.null, ⟨first, first :: rest, finish⟩)
      else term ⟨first, first :: rest, finish⟩) = .ok (root, middle)) :
    ∃ taken, (first :: rest).map (·.token) = taken ++ middle.tokens ∧ DerivesRoot taken root := by
  split at hread
  · obtain ⟨rfl, rfl⟩ := ok_mk_inj hread
    exact ⟨[], rfl, .missing⟩
  · obtain ⟨taken, htaken, h⟩ :=
      (Level.yields_ofDepth maxNesting).1 (fun hrest => by cases hrest) hread
    exact ⟨taken, htaken, .term h⟩

/-- What is accepted as an expression is derived. -/
theorem derived_of_ofTokens {tokens : TokenList} {e : Expression}
    (hread : ofTokens tokens = .ok e) : Derived (tokens.tokens.map (·.token)) e := by
  obtain ⟨placed, finish⟩ := tokens
  cases placed with
  | nil =>
    obtain rfl := Except.ok.inj hread
    exact ⟨[], [], [], rfl, .missing, .missing, List.Pairwise.nil, fun _ => rfl⟩
  | cons first rest =>
    rw [ofTokens_cons] at hread
    obtain ⟨⟨root, middle⟩, hroot, hread⟩ := exists_of_bind_eq_ok hread
    obtain ⟨⟨options, last⟩, hoptions, hread⟩ := exists_of_bind_eq_ok hread
    have htail : ∃ taken given, middle.tokens = taken ++ last.tokens ∧ DerivesTail taken given ∧
        options = Entries.ofList given := by
      split at hoptions
      · next hpeek =>
        obtain ⟨hmiddle, hat⟩ := Cursor.tokens_of_peek hpeek
        obtain ⟨taken, given, hadvance, hgiven, heq⟩ :=
          exists_of_optionsAfter (fun _ => by rw [hat]; rfl) hoptions
        exact ⟨.atSign :: taken, given, by rw [hmiddle, hadvance, List.cons_append],
          .options hgiven, heq⟩
      · obtain ⟨rfl, rfl⟩ := ok_mk_inj hoptions
        exact ⟨[], [], rfl, .missing, rfl⟩
    obtain ⟨taken, htaken, hderived⟩ := exists_of_root hroot
    obtain ⟨behind, given, hbehind, hgiven, rfl⟩ := htail
    simp only at hread
    split at hread
    · cases hread
    · next hpeek =>
      obtain rfl := Except.ok.inj hread
      have hnil : last.tokens = [] := by
        rw [Cursor.peek_eq, Option.isSome_iff_ne_none, not_not] at hpeek
        exact List.head?_eq_none_iff.1 hpeek
      refine ⟨taken, behind, given, ?_, hderived, hgiven, Entries.sorted_ofList given,
        Entries.find?_ofList given⟩
      rw [htaken, hbehind, hnil, List.append_nil]

end Expression

end Stencil
