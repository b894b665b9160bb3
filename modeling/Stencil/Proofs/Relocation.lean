import Stencil.Proofs.ReadTrees
import Stencil.Proofs.Recognition

/-!
# Reading at another place

Where a text stands shows in the locations that come with what is read from it, and in nothing else:
at another place it is read just as well, with the same result up to locations.

## Main definitions

* `Fragment.unplaced`, `Attribute.unplaced`: without the location

## Main results

* `Fragment.exists_parse`: the fragments of a text
* `Attribute.exists_ofWritten`: an attribute of a start tag
-/

namespace Stencil

variable {here : Location}

/-! ### Tokens and expressions -/

namespace Lexeme

theorem toOption_number (here there : Location) (first : Char) (input : List Char) :
    (number here first input).toOption = (number there first input).toOption := by
  simp only [number]
  split <;> rfl

theorem toOption_next (here there : Location) (first : Char) (input : List Char) :
    (next here first input).toOption = (next there first input).toOption := by
  have hnumber := toOption_number here there
  unfold next
  -- Only numbers and failures look at the place.
  split
  all_goals try rfl
  · split
    · exact hnumber _ _
    · rfl
  · split <;> rfl
  · split <;> rfl
  · split
    · cases textBody _ input <;> rfl
    · split
      · exact hnumber _ _
      · split <;> rfl

/-- A token is cut off at one place if it is at another. -/
theorem next_eq_ok {first : Char} {input : List Char} {lexeme : Lexeme input}
    (h : next here first input = .ok lexeme) (there : Location) :
    next there first input = .ok lexeme := by
  have hsame := toOption_next here there first input
  rw [h] at hsame
  cases hnext : next there first input with
  | error e =>
    rw [hnext] at hsame
    cases hsame
  | ok other =>
    rw [hnext] at hsame
    rw [Option.some.inj hsame]

end Lexeme

/-- The tokens without their locations. -/
def TokenList.unplaced (tokens : TokenList) : List Token :=
  tokens.tokens.map (·.token)

theorem TokenList.exists_ofChars {input : List Char} {tokens : TokenList}
    (h : ofChars here input = .ok tokens) (there : Location) :
    ∃ others, ofChars there input = .ok others ∧ others.unplaced = tokens.unplaced := by
  fun_induction ofChars here input generalizing there tokens with
  | case1 here =>
    obtain rfl := Except.ok.inj h
    exact ⟨⟨[], there⟩, by rw [ofChars], rfl⟩
  | case2 here first rest hblank ih =>
    rw [ofChars, if_pos hblank]
    exact ih h _
  | case3 => cases h
  | case4 => cases h
  | case5 here first rest hblank lexeme hnext following hfollowing ih =>
    obtain rfl := Except.ok.inj h
    obtain ⟨others, hothers, hsame⟩ := ih hfollowing (there.advance (first :: lexeme.more))
    rw [ofChars, if_neg hblank, Lexeme.next_eq_ok hnext there]
    simp only [hothers]
    exact ⟨_, rfl, congrArg (List.cons lexeme.token) hsame⟩

/-- What tokens are read as does not depend on where they stand. -/
theorem Expression.ofTokens_congr {tokens others : TokenList} {e : Expression}
    (h : others.unplaced = tokens.unplaced) (hread : ofTokens tokens = .ok e) :
    ofTokens others = .ok e := by
  have hderived : Derived (others.tokens.map (·.token)) e := by
    change Derived others.unplaced e
    rw [h]
    exact derived_of_ofTokens hread
  exact ofTokens_eq_ok_of_derived hderived

/-- An expression is read at one place if it is at another. -/
theorem Expression.parse_eq_ok {body : List Char} {e : Expression} (h : parse here body = .ok e)
    (there : Location) : parse there body = .ok e := by
  obtain ⟨tokens, htokens, hread⟩ := exists_of_bind_eq_ok h
  obtain ⟨others, hothers, hsame⟩ := TokenList.exists_ofChars htokens there
  simp only [parse, hothers]
  exact ofTokens_congr hsame hread

/-! ### Fragments -/

namespace Fragment

/-- A fragment without its location. -/
def unplaced : Fragment → Fragment
  | .text literal => .text literal
  | .expression e _ => .expression e .nowhere

theorem map_unplaced_flush {found : List Char} {fragments others : List Fragment}
    (h : others.map unplaced = fragments.map unplaced) :
    (flush found others).map unplaced = (flush found fragments).map unplaced := by
  unfold flush
  split
  · exact h
  · exact congrArg (List.cons _) h

theorem parseAfter_of_body {found rest body after : List Char}
    (h : expressionBody? none rest = some (body, after)) (here : Location) :
    parseAfter found here ('$' :: '\x7b' :: rest) =
      match Expression.parse (here.shift 2) body with
      | .error e => .error e
      | .ok parsed =>
        match parseAfter [] (((here.shift 2).advance body).shift 1) after with
        | .error e => .error e
        | .ok fragments => .ok (flush found (.expression parsed here :: fragments)) := by
  rw [parseAfter]
  split
  · next hnone =>
    rw [h] at hnone
    cases hnone
  · next found' after' hsome =>
    rw [h] at hsome
    obtain ⟨rfl, rfl⟩ := Prod.mk.inj (Option.some.inj hsome)
    rfl

theorem exists_parseAfter {found input : List Char} {fragments : List Fragment}
    (h : parseAfter found here input = .ok fragments) (there : Location) :
    ∃ others, parseAfter found there input = .ok others ∧
      others.map unplaced = fragments.map unplaced := by
  fun_induction parseAfter found here input generalizing there fragments with
  | case1 found here =>
    obtain rfl := Except.ok.inj h
    exact ⟨flush found [], by rw [parseAfter], rfl⟩
  | case2 found here rest ih =>
    rw [parseAfter]
    exact ih h _
  | case3 => cases h
  | case4 => cases h
  | case5 => cases h
  | case6 found here rest body after hbody parsed hparsed following hfollowing ih =>
    obtain rfl := Except.ok.inj h
    obtain ⟨others, hothers, hsame⟩ := ih hfollowing (((there.shift 2).advance body).shift 1)
    rw [parseAfter_of_body hbody, Expression.parse_eq_ok hparsed]
    simp only [hothers]
    refine ⟨_, rfl, map_unplaced_flush ?_⟩
    rw [List.map_cons, List.map_cons, hsame]
    rfl
  | case7 found here c rest _ _ ih =>
    rw [parseAfter]
    · exact ih h _
    · assumption
    · assumption

/-- The fragments of a text do not depend on where it stands. -/
theorem exists_parse {s : String} {fragments : List Fragment} (h : parse here s = .ok fragments)
    (there : Location) :
    ∃ others, parse there s = .ok others ∧ others.map unplaced = fragments.map unplaced :=
  exists_parseAfter h there

theorem exists_parse_error {s : String} {e : ExpressionError} (h : parse here s = .error e)
    (there : Location) : ∃ e', parse there s = .error e' := by
  cases hthere : parse there s with
  | error e' => exact ⟨e', rfl⟩
  | ok fragments =>
    obtain ⟨others, hothers, -⟩ := exists_parse hthere here
    rw [h] at hothers
    cases hothers

theorem single?_map_unplaced (fragments : List Fragment) :
    single? (fragments.map unplaced) = single? fragments := by
  match fragments with
  | [] => rfl
  | [.text _] => rfl
  | [.expression .. ] => rfl
  | first :: second :: rest => cases first <;> rfl

theorem constant?_map_unplaced (fragments : List Fragment) :
    constant? (fragments.map unplaced) = constant? fragments := by
  induction fragments with
  | nil => rfl
  | cons first rest ih =>
    cases first with
    | text literal =>
      rw [List.map_cons, unplaced, constant?, ih]
      rfl
    | expression e here => rfl

end Fragment

/-! ### Attributes -/

namespace Markup

/-- The expression of a directive is read at one place if it is at another. -/
theorem directiveExpression_eq_ok {value? : Option String} {e : Expression}
    (h : directiveExpression here value? = .ok e) (there : Location) :
    directiveExpression there value? = .ok e := by
  cases value? with
  | none => exact h
  | some text =>
    obtain ⟨fragments, hfragments, h⟩ := exists_of_bind_eq_ok h
    obtain ⟨others, hothers, hsame⟩ := Fragment.exists_parse hfragments there
    have hsingle : Fragment.single? others = Fragment.single? fragments := by
      rw [← Fragment.single?_map_unplaced, hsame, Fragment.single?_map_unplaced]
    have hconstant : Fragment.constant? others = Fragment.constant? fragments := by
      rw [← Fragment.constant?_map_unplaced, hsame, Fragment.constant?_map_unplaced]
    simp only [directiveExpression, hothers, bind, Except.bind, hsingle, hconstant]
    generalize Fragment.single? fragments = single? at h ⊢
    generalize Fragment.constant? fragments = constant? at h ⊢
    cases single? with
    | some single => exact h
    | none =>
      cases constant? with
      | some constant => exact h
      | none => cases h

/-- An attribute of a start tag without its location. -/
def WrittenAttribute.unplaced (attr : WrittenAttribute) : WrittenAttribute :=
  { attr with location := .nowhere }

theorem WrittenAttribute.unplaced_inj {attr other : WrittenAttribute} :
    other.unplaced = attr.unplaced ↔
      other.name = attr.name ∧ other.value = attr.value ∧ other.quote = attr.quote := by
  simp [unplaced]

/-- An attribute without its location. -/
def Attribute.unplaced (attr : Attribute) : Attribute :=
  { attr with location := .nowhere }

theorem Attribute.unplaced_inj {attr other : Attribute} :
    other.unplaced = attr.unplaced ↔
      other.name = attr.name ∧ other.value = attr.value ∧ other.quote = attr.quote := by
  simp [unplaced]

/-- An attribute is read at one place if it is at another. -/
theorem Attribute.exists_ofWritten {written other : WrittenAttribute} {attr : Attribute}
    (h : ofWritten written = .ok attr) (hother : other.unplaced = written.unplaced) :
    ∃ attr', ofWritten other = .ok attr' ∧ attr'.unplaced = attr.unplaced := by
  obtain ⟨hsameName, hvalue, hquote⟩ := WrittenAttribute.unplaced_inj.1 hother
  cases hname : DirectiveCall.ofAttributeName? written.name with
  | none =>
    rw [ofWritten_of_none hname] at h
    rw [ofWritten_of_none (by rw [hsameName, hname]), hsameName, hvalue, hquote]
    obtain rfl := Except.ok.inj h
    exact ⟨_, rfl, rfl⟩
  | some call =>
    rw [ofWritten_of_some hname] at h
    obtain ⟨e, he, h⟩ := exists_of_bind_eq_ok h
    obtain rfl := Except.ok.inj h
    rw [ofWritten_of_some (by rw [hsameName, hname]), hsameName, hvalue, hquote,
      directiveExpression_eq_ok he]
    exact ⟨_, rfl, rfl⟩

end Markup

end Stencil
