import Stencil.Proofs.Lexing

/-!
# Tokens of written terms

The written form of a term is cut into the tokens of the term, whatever ends it. The exceptions are
names that go on, and properties of numbers and negations: there the written form says something
else.

## Main definitions

* `Term.Printable`: a term whose written form says what it is
* `Term.tokens`: the tokens of a term

## Main results

* `Term.lexes_render`: the written form of a term is cut into its tokens
-/

namespace Stencil

/-- Whether a term without an operator in front can begin with the token. -/
def Token.beginsPrimary : Token → Bool
  | .text _ => true
  | .number _ => true
  | .identifier _ => true
  | .boolean _ => true
  | .null => true
  | .leftBracket => true
  | .leftParen => true
  | _ => false

namespace Term

/-- Whether the term begins with an operator. -/
def isUnary : Term → Bool
  | .unary .. => true
  | _ => false

/-- Whether a property access can be written behind the term. -/
def isTarget : Term → Bool
  | .number _ => false
  | .unary .. => false
  | _ => true

mutual

/-- A term whose written form says what it is: numbers are natural, names are identifiers also where
they follow a dot, and properties are those of terms that end before the dot or the bracket. -/
def Printable : Term → Prop
  | .null => True
  | .text _ => True
  | .number value => value.IsNatural
  | .boolean _ => True
  | .identifier name => Lexes name.toList [.identifier name]
  | .property target key =>
    (target.isTarget = true ∧ Printable target) ∧ Printable key ∧
      ∀ name, dotted? key = some name → Lexes name.toList [.identifier name]
  | .array items => PrintableItems items
  | .map _ => False
  | .unary operator operand => operator = .not ∧ Printable operand
  | .binary _ left right => Printable left ∧ Printable right
  | .choice condition yes no => Printable condition ∧ Printable yes ∧ Printable no
  | .call .. => False

/-- All items are printable. -/
def PrintableItems : List Term → Prop
  | [] => True
  | item :: rest => Printable item ∧ PrintableItems rest

end

mutual

/-- The tokens of a term. -/
def tokens : Term → List Token
  | .null => [.null]
  | .text value => [.text value]
  | .number value => [.number value.withoutZeroSign]
  | .boolean value => [.boolean value]
  | .identifier name => [.identifier name]
  | .property target key =>
    match dotted? key with
    | some name => tokens target ++ [.dot, .identifier name]
    | none => tokens target ++ .leftBracket :: tokens key ++ [.rightBracket]
  | .array items => .leftBracket :: tokensOfItems items ++ [.rightBracket]
  | .map _ => []
  | .unary _ operand => .not :: tokens operand
  | .binary operator left right =>
    .leftParen :: tokens left ++ .operator operator :: tokens right ++ [.rightParen]
  | .choice condition yes no =>
    .leftParen :: tokens condition ++ .question :: tokens yes ++ .colon :: tokens no ++ [.rightParen]
  | .call .. => []

/-- The tokens of terms with commas between them. -/
def tokensOfItems : List Term → List Token
  | [] => []
  | [item] => tokens item
  | item :: next :: rest => tokens item ++ .comma :: tokensOfItems (next :: rest)

end

theorem isUnary_of_isTarget {t : Term} (ht : t.isTarget = true) : t.isUnary = false := by
  cases t <;> first | rfl | cases ht

/-- The first token of a term, which tells a negation from the other terms. -/
theorem exists_tokens_eq_cons {t : Term} (ht : t.Printable) :
    ∃ first more, t.tokens = first :: more ∧
      if t.isUnary then first = .not else first.beginsPrimary = true := by
  cases t with
  | property target key =>
    rw [Printable] at ht
    obtain ⟨first, more, htokens, hfirst⟩ := exists_tokens_eq_cons ht.1.2
    rw [isUnary_of_isTarget ht.1.1] at hfirst
    rw [tokens, htokens]
    split <;> exact ⟨first, _, rfl, hfirst⟩
  | map | call => rw [Printable] at ht; exact ht.elim
  | _ => rw [tokens]; exact ⟨_, _, rfl, rfl⟩

theorem printable_of_mem {items : List Term} (hitems : PrintableItems items) {item : Term}
    (hitem : item ∈ items) : item.Printable := by
  induction items with
  | nil => cases hitem
  | cons other items ih =>
    rw [PrintableItems] at hitems
    rcases List.mem_cons.1 hitem with rfl | hitem
    · exact hitems.1
    · exact ih hitems.2 hitem

theorem exists_tokensOfItems_eq_cons {item : Term} {items : List Term}
    (hitems : PrintableItems (item :: items)) :
    ∃ first more, tokensOfItems (item :: items) = first :: more ∧ first ≠ .rightBracket := by
  obtain ⟨first, more, htokens, hfirst⟩ :=
    exists_tokens_eq_cons (printable_of_mem hitems List.mem_cons_self)
  have hbracket : first ≠ .rightBracket := by
    rintro rfl
    split at hfirst <;> cases hfirst
  cases items with
  | nil => exact ⟨first, more, by rw [tokensOfItems, htokens], hbracket⟩
  | cons next items => exact ⟨first, _, by rw [tokensOfItems, htokens]; rfl, hbracket⟩

/-- A written term begins with another sign than an equals sign, so it can stand behind any sign. -/
theorem exists_head?_render {t : Term} (ht : t.Printable) :
    ∃ first, first ≠ '=' ∧ t.render.toList.head? = some first := by
  cases t with
  | null => exact ⟨'n', by decide, rfl⟩
  | text value => exact ⟨'\'', by decide, by rw [render, toList_quote]; rfl⟩
  | number value =>
    rw [Printable] at ht
    obtain ⟨-, n, hinteger, hlt⟩ := ht
    rw [render, writeNumber_of_integer? hinteger hlt]
    refine ⟨_, ?_, List.head?_eq_some_head Nat.toDigits_ne_nil⟩
    intro heq
    have hdigit := Nat.isDigit_of_mem_toDigits (by decide) (by decide)
      (List.head_mem (Nat.toDigits_ne_nil (n := n) (b := 10)))
    rw [heq] at hdigit
    exact absurd hdigit (by decide)
  | boolean value => cases value <;> exact ⟨_, by decide, rfl⟩
  | identifier name =>
    rw [Printable, Lexes.identifier_iff] at ht
    rw [render]
    cases hchars : name.toList with
    | nil => rw [hchars] at ht; cases ht.1
    | cons first more =>
      refine ⟨first, ?_, rfl⟩
      rintro rfl
      rw [hchars] at ht
      exact absurd ht.1.2.2.1 (by decide)
  | property target key =>
    rw [Printable] at ht
    obtain ⟨first, hfirst, hhead⟩ := exists_head?_render ht.1.2
    refine ⟨first, hfirst, ?_⟩
    rw [render]
    split <;> simp [hhead]
  | array items => exact ⟨'[', by decide, by simp [render]⟩
  | map entries => rw [Printable] at ht; exact ht.elim
  | unary operator operand =>
    rw [Printable] at ht
    obtain ⟨rfl, -⟩ := ht
    exact ⟨'!', by decide, by simp [render, UnaryOperator.symbol]⟩
  | binary operator left right => exact ⟨'(', by decide, by simp [render]⟩
  | choice condition yes no => exact ⟨'(', by decide, by simp [render]⟩
  | call function arguments => rw [Printable] at ht; exact ht.elim

theorem head?_render_append {t : Term} (ht : t.Printable) (rest : List Char) :
    (t.render.toList ++ rest).head? ≠ some '=' := by
  obtain ⟨first, hfirst, hhead⟩ := exists_head?_render ht
  rw [List.head?_append, hhead, Option.some_or]
  exact fun heq => hfirst (Option.some.inj heq)

mutual

/-- The written form of a term is cut into its tokens, unless what follows continues it. -/
theorem lexes_render {t : Term} (ht : t.Printable) {rest : List Char} {after : List Token}
    (hname : nameLength rest = 0)
    (hnumber : t.isTarget = false → ∀ last, numberLength last rest = 0) (hrest : Lexes rest after) :
    Lexes (t.render.toList ++ rest) (t.tokens ++ after) := by
  cases t with
  | null => exact Lexes.ofName (by decide) hname hrest
  | text value => rw [render]; exact hrest.ofText value
  | number value =>
    rw [Printable] at ht
    rw [render]
    exact hrest.ofNumber ht (hnumber rfl)
  | boolean value => cases value <;> exact Lexes.ofName (by decide) hname hrest
  | identifier name =>
    rw [Printable, Lexes.identifier_iff] at ht
    have h := Lexes.ofName ht.1 hname hrest
    rwa [ht.2] at h
  | property target key =>
    rw [Printable] at ht
    obtain ⟨⟨htarget, hprintable⟩, hkey, hdotted⟩ := ht
    have hcontinued {rest : List Char} {after : List Token} (hname : nameLength rest = 0)
        (hrest : Lexes rest after) : Lexes (target.render.toList ++ rest) (target.tokens ++ after) :=
      lexes_render hprintable hname (fun h => absurd htarget (by simp [h])) hrest
    rw [render, tokens]
    cases hkeyName : dotted? key with
    | some name =>
      obtain ⟨hisName, htoken⟩ := Lexes.identifier_iff.1 (hdotted name hkeyName)
      have h := Lexes.ofName hisName hname hrest
      rw [htoken] at h
      simpa using hcontinued rfl (h.dot (hisName.head?_append rest))
    | none =>
      have h := lexes_render hkey rfl (fun _ _ => rfl) hrest.rightBracket
      simpa using hcontinued rfl h.leftBracket
  | array items =>
    rw [Printable] at ht
    rw [render, tokens]
    simpa using (lexes_renderItems ht hrest).leftBracket
  | map entries => rw [Printable] at ht; exact ht.elim
  | unary operator operand =>
    rw [Printable] at ht
    obtain ⟨rfl, hoperand⟩ := ht
    rw [render, tokens]
    -- The operand may be a number, so the sign passes on what must not follow a number.
    have h := lexes_render hoperand hname (fun _ => hnumber rfl) hrest
    simpa [UnaryOperator.symbol] using h.not (head?_render_append hoperand rest)
  | binary operator left right =>
    rw [Printable] at ht
    rw [render, tokens]
    -- From the end to the front: behind each part stands a blank or a parenthesis.
    have hright := lexes_render ht.2 rfl (fun _ _ => rfl) hrest.rightParen
    have hleft := lexes_render ht.1 rfl (fun _ _ => rfl) (hright.ofOperator operator).blank
    simpa using hleft.leftParen
  | choice condition yes no =>
    rw [Printable] at ht
    obtain ⟨hcondition, hyes, hno⟩ := ht
    rw [render, tokens]
    have hno := lexes_render hno rfl (fun _ _ => rfl) hrest.rightParen
    have hyes := lexes_render hyes rfl (fun _ _ => rfl) hno.blank.colon.blank
    have hcondition := lexes_render hcondition rfl (fun _ _ => rfl) hyes.blank.question.blank
    simpa using hcondition.leftParen
  | call function arguments => rw [Printable] at ht; exact ht.elim

/-- Terms with commas between them, up to the closing bracket. -/
theorem lexes_renderItems {items : List Term} (hitems : PrintableItems items) {rest : List Char}
    {after : List Token} (hrest : Lexes rest after) :
    Lexes ((renderItems items).toList ++ ']' :: rest)
      (tokensOfItems items ++ .rightBracket :: after) := by
  match items with
  | [] => exact hrest.rightBracket
  | [item] =>
    rw [PrintableItems] at hitems
    rw [renderItems, tokensOfItems]
    exact lexes_render hitems.1 rfl (fun _ _ => rfl) hrest.rightBracket
  | item :: next :: others =>
    rw [PrintableItems] at hitems
    rw [renderItems, tokensOfItems]
    have hothers := lexes_renderItems hitems.2 hrest
    have hitem := lexes_render hitems.1 rfl (fun _ _ => rfl) hothers.blank.comma
    simpa using hitem

end

end Term

end Stencil
