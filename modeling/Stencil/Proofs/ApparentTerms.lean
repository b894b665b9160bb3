import Stencil.Proofs.LegibleTerms

/-!
# What texts of terms show

Two things are lost when a term is written. A negation has no parentheses, so where a negation is
accessed, its text shows the negation of the access. An infinite number is written as a name. Apart
from these, the text of a term that has been read shows the term.

## Main definitions

* `Term.apparent`: the term that a text shows
* `Term.isPlain`: no negation is accessed and no number is infinite
* `Term.Readable`: the terms that can be read

## Main results

* `Term.render_apparent`: a term is written like the term that its text shows
* `Term.legible_apparent`: what the text of a term that can be read shows is legible
* `Derives.readable`: what is derived from the tokens of a text can be read
-/

namespace Stencil

namespace Term

/-- An access behind a negation belongs to what is negated. -/
def access : Term → Term → Term
  | .unary operator operand, key => .unary operator (access operand key)
  | target, key => .property target key

mutual

/-- The term that the text of a term shows. -/
def apparent : Term → Term
  | .number (.infinite negative) => .identifier (writeNumber (.infinite negative))
  | .property target key => access (apparent target) (apparent key)
  | .array items => .array (apparentItems items)
  | .unary operator operand => .unary operator (apparent operand)
  | .binary operator left right => .binary operator (apparent left) (apparent right)
  | .choice condition yes no => .choice (apparent condition) (apparent yes) (apparent no)
  | t => t

/-- The terms that the texts of items show. -/
def apparentItems : List Term → List Term
  | [] => []
  | item :: rest => apparent item :: apparentItems rest

end

mutual

/-- Whether the text of a term shows the term itself: no negation is accessed, and no number is
infinite. -/
def isPlain : Term → Bool
  | .number (.infinite _) => false
  | .property target key => !target.isUnary && isPlain target && isPlain key
  | .array items => isPlainItems items
  | .unary _ operand => isPlain operand
  | .binary _ left right => isPlain left && isPlain right
  | .choice condition yes no => isPlain condition && isPlain yes && isPlain no
  | _ => true

/-- Whether all items are plain. -/
def isPlainItems : List Term → Bool
  | [] => true
  | item :: rest => isPlain item && isPlainItems rest

end

/-! ### The text is kept -/

theorem toList_render_access (t key : Term) :
    (access t key).render.toList = t.render.toList ++ key.keyChars := by
  cases t with
  | unary operator operand =>
    rw [access, render, render, String.toList_append, toList_render_access operand key,
      String.toList_append, List.append_assoc]
  | _ => exact toList_render_property _ _

theorem dotted?_access (t key : Term) : dotted? (access t key) = none := by
  cases t <;> rfl

theorem dotted?_apparent (t : Term) : dotted? t.apparent = dotted? t := by
  cases t with
  | number value => cases value <;> rfl
  | property target key => rw [apparent, dotted?_access]; rfl
  | _ => rfl

mutual

/-- A term is written like the term that its text shows. -/
theorem render_apparent (t : Term) : t.apparent.render = t.render := by
  cases t with
  | number value => cases value <;> rfl
  | property target key =>
    have hkey : key.apparent.keyChars = key.keyChars := by
      rw [keyChars, keyChars, dotted?_apparent, render_apparent key]
    apply String.toList_injective
    rw [apparent, toList_render_access, toList_render_property, render_apparent target, hkey]
  | array items => rw [apparent, render, render, renderItems_apparent items]
  | unary operator operand => rw [apparent, render, render, render_apparent operand]
  | binary operator left right =>
    rw [apparent, render, render, render_apparent left, render_apparent right]
  | choice condition yes no =>
    rw [apparent, render, render, render_apparent condition, render_apparent yes,
      render_apparent no]
  | _ => rfl

theorem renderItems_apparent (items : List Term) :
    renderItems (apparentItems items) = renderItems items := by
  match items with
  | [] => rfl
  | [item] => rw [apparentItems, apparentItems, renderItems, renderItems, render_apparent item]
  | item :: next :: rest =>
    have hrest := renderItems_apparent (next :: rest)
    rw [apparentItems] at hrest
    rw [apparentItems, apparentItems, renderItems, renderItems, render_apparent item, hrest]

end

mutual

theorem apparent_of_isPlain {t : Term} (ht : t.isPlain = true) : t.apparent = t := by
  cases t with
  | number value =>
    cases value with
    | infinite => cases ht
    | finite => rfl
  | property target key =>
    rw [isPlain, Bool.and_eq_true, Bool.and_eq_true, Bool.not_eq_true'] at ht
    rw [apparent, apparent_of_isPlain ht.1.2, apparent_of_isPlain ht.2]
    -- Only the access to a negation would appear inside it.
    cases target with
    | unary => cases ht.1.1
    | _ => rfl
  | array items =>
    rw [isPlain] at ht
    rw [apparent, apparentItems_of_isPlain ht]
  | unary operator operand =>
    rw [isPlain] at ht
    rw [apparent, apparent_of_isPlain ht]
  | binary operator left right =>
    rw [isPlain, Bool.and_eq_true] at ht
    rw [apparent, apparent_of_isPlain ht.1, apparent_of_isPlain ht.2]
  | choice condition yes no =>
    rw [isPlain, Bool.and_eq_true, Bool.and_eq_true] at ht
    rw [apparent, apparent_of_isPlain ht.1.1, apparent_of_isPlain ht.1.2, apparent_of_isPlain ht.2]
  | _ => rfl

theorem apparentItems_of_isPlain {items : List Term} (hitems : isPlainItems items = true) :
    apparentItems items = items := by
  cases items with
  | nil => rfl
  | cons item rest =>
    rw [isPlainItems, Bool.and_eq_true] at hitems
    rw [apparentItems, apparent_of_isPlain hitems.1, apparentItems_of_isPlain hitems.2]

end

/-! ### Terms that can be read -/

mutual

/-- A term that can be read: its numbers have been read from numerals, its names are no keywords,
and it has the forms of the grammar. -/
def Readable : Term → Prop
  | .null => True
  | .text _ => True
  | .number value => value = .infinite false ∨ value.IsNumeral
  | .boolean _ => True
  | .identifier name => isIdentifier name = true ∧ tokenOfName name = .identifier name
  | .property target key => Readable target ∧ Readable key
  | .array items => ReadableItems items
  | .map _ => False
  | .unary operator operand => operator = .not ∧ Readable operand
  | .binary _ left right => Readable left ∧ Readable right
  | .choice condition yes no => Readable condition ∧ Readable yes ∧ Readable no
  | .call .. => False

/-- All items can be read. -/
def ReadableItems : List Term → Prop
  | [] => True
  | item :: rest => Readable item ∧ ReadableItems rest

end

theorem legible_access {t key : Term} (ht : t.Legible) (hkey : key.Legible) :
    (access t key).Legible := by
  cases t with
  | unary operator operand =>
    rw [Legible] at ht
    rw [access, Legible]
    exact ⟨ht.1, legible_access ht.2 hkey⟩
  | _ =>
    rw [access, Legible]
    · exact ⟨rfl, ht, hkey⟩
    · intro _ _ hunary
      cases hunary

mutual

/-- What the text of a term that can be read shows is legible. -/
theorem legible_apparent {t : Term} (ht : t.Readable) : t.apparent.Legible := by
  cases t with
  | number value =>
    rw [Readable] at ht
    rcases ht with rfl | hvalue
    -- Infinity is written like a name, and so it appears as one.
    · rw [apparent, Legible]
      exact ⟨by decide, by decide⟩
    · cases value with
      | infinite => exact hvalue.elim
      | finite => exact hvalue
  | property target key =>
    rw [Readable] at ht
    rw [apparent]
    exact legible_access (legible_apparent ht.1) (legible_apparent ht.2)
  | array items =>
    rw [Readable] at ht
    rw [apparent, Legible]
    exact legibleItems_apparent ht
  | map entries => rw [Readable] at ht; exact ht.elim
  | unary operator operand =>
    rw [Readable] at ht
    rw [apparent, Legible]
    exact ⟨ht.1, legible_apparent ht.2⟩
  | binary operator left right =>
    rw [Readable] at ht
    rw [apparent, Legible]
    exact ⟨legible_apparent ht.1, legible_apparent ht.2⟩
  | choice condition yes no =>
    rw [Readable] at ht
    rw [apparent, Legible]
    exact ⟨legible_apparent ht.1, legible_apparent ht.2.1, legible_apparent ht.2.2⟩
  | call function arguments => rw [Readable] at ht; exact ht.elim
  | _ => exact ht

theorem legibleItems_apparent {items : List Term} (hitems : ReadableItems items) :
    LegibleItems (apparentItems items) := by
  cases items with
  | nil => trivial
  | cons item rest =>
    rw [ReadableItems] at hitems
    rw [apparentItems, LegibleItems]
    exact ⟨legible_apparent hitems.1, legibleItems_apparent hitems.2⟩

end

end Term

/-! ### Tokens -/

/-- What can be read of a token: a number comes from a numeral, and an identifier is a name. -/
def Token.Readable : Token → Prop
  | .number value => value = .infinite false ∨ value.IsNumeral
  | .identifier name => isIdentifier name = true ∧ tokenOfName name = .identifier name
  | _ => True

theorem continuesName_of_mem_take {input : List Char} :
    ∀ c ∈ input.take (nameLength input), continuesName c = true := by
  induction input with
  | nil => exact List.forall_mem_nil _
  | cons c rest ih =>
    rw [nameLength]
    split
    · next hc =>
      rw [List.take_succ_cons]
      refine List.forall_mem_cons.2 ⟨?_, ih⟩
      rw [continuesName]
      grind
    · exact List.forall_mem_nil _

theorem readable_tokenOfName {name : String} (h : isIdentifier name = true) :
    (tokenOfName name).Readable := by
  by_cases hkeyword : tokenOfName name = .identifier name
  · rw [hkeyword]
    exact ⟨h, hkeyword⟩
  · unfold tokenOfName at hkeyword ⊢
    split; · trivial
    split; · trivial
    split; · trivial
    split; · trivial
    simp_all

theorem Token.Stands.readable {token : Token} {chars rest : List Char}
    (h : token.Stands chars rest) : token.Readable := by
  cases h with
  | sign hsign => cases token <;> trivial
  | text => trivial
  | number => exact Scientific.toBinary64_eq_infinite_or _
  | @name first more rest _ hfirst hmore =>
    have hcontinues : ∀ c ∈ (more ++ rest).take (nameLength (more ++ rest)),
        continuesName c = true := continuesName_of_mem_take
    rw [hmore, List.take_left] at hcontinues
    refine readable_tokenOfName ?_
    rw [isIdentifier, String.toList_ofList, Bool.and_eq_true, List.all_eq_true]
    exact ⟨hfirst, hcontinues⟩

/-- All tokens of a text can be read. -/
theorem readable_of_ofChars {here : Location} {input : List Char} {list : TokenList}
    (h : TokenList.ofChars here input = .ok list) :
    ∀ token ∈ list.tokens.map (·.token), token.Readable := by
  fun_induction TokenList.ofChars here input generalizing list with
  | case1 here =>
    rw [← Except.ok.inj h]
    exact List.forall_mem_nil _
  | case2 here first rest hblank ih => exact ih h
  | case3 => cases h
  | case4 => cases h
  | case5 here first rest hblank lexeme hnext following hrest ih =>
    rw [← Except.ok.inj h]
    exact List.forall_mem_cons.2 ⟨(Lexeme.stands_of_next hnext).readable, ih hrest⟩

/-- The term that a token is by itself can be read if the token can. -/
theorem Token.Readable.atom {token : Token} {t : Term} (h : token.Readable)
    (ht : token.atom? = some t) : t.Readable := by
  cases token with
  | text value => rw [← Option.some.inj ht]; trivial
  | number value => rw [← Option.some.inj ht]; exact h
  | identifier name => rw [← Option.some.inj ht]; exact h
  | boolean value => rw [← Option.some.inj ht]; trivial
  | null => rw [← Option.some.inj ht]; trivial
  | _ => cases ht

/-- What is derived from tokens that can be read can be read. -/
theorem Derives.readable {k : Category} {n : Nat} {tokens : List Token} {t : Term}
    (h : Derives k n tokens t) (htokens : ∀ token ∈ tokens, token.Readable) : t.Readable := by
  -- By the rule used last: the tokens of each part are among those of the whole.
  induction h with
  | term _ ih | conjunction _ ih | comparison _ ih | unary _ ih | access _ ih | primary _ ih =>
    exact ih htokens
  | choice _ _ _ ihcondition ihyes ihno =>
    rw [List.forall_mem_append, List.forall_mem_cons, List.forall_mem_append,
      List.forall_mem_cons] at htokens
    rw [Term.Readable]
    exact ⟨ihcondition htokens.1, ihyes htokens.2.2.1, ihno htokens.2.2.2.2⟩
  | or _ _ ihleft ihright | and _ _ ihleft ihright | compare _ _ _ ihleft ihright =>
    rw [List.forall_mem_append, List.forall_mem_cons] at htokens
    rw [Term.Readable]
    exact ⟨ihleft htokens.1, ihright htokens.2.2⟩
  | not _ ih =>
    rw [List.forall_mem_cons] at htokens
    rw [Term.Readable]
    exact ⟨rfl, ih htokens.2⟩
  | dotName name _ ih | dotNumber value _ ih =>
    rw [List.forall_mem_append] at htokens
    rw [Term.Readable]
    exact ⟨ih htokens.1, trivial⟩
  | bracket _ _ ih ihkey =>
    rw [List.forall_mem_append, List.forall_mem_cons, List.forall_mem_append] at htokens
    rw [Term.Readable]
    exact ⟨ih htokens.1, ihkey htokens.2.2.1⟩
  | atom h => exact (htokens _ List.mem_cons_self).atom h
  | paren _ ih | array _ ih =>
    rw [List.forall_mem_cons, List.forall_mem_append] at htokens
    exact ih htokens.2.1
  | noItems => trivial
  | item _ ih =>
    rw [Term.Readable]
    exact ⟨ih htokens, trivial⟩
  | comma _ _ ih ihitems =>
    rw [List.forall_mem_append, List.forall_mem_cons] at htokens
    have hitems := ihitems htokens.2.2
    rw [Term.Readable] at hitems ⊢
    exact ⟨ih htokens.1, hitems⟩

end Stencil
