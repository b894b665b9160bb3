import Stencil.Proofs.Compilation
import Stencil.Proofs.Relocation

/-!
# Texts with expressions

Two readers look at the characters of an expression: one looks for the closing brace, the other one
cuts tokens. They agree on where text literals begin and end, so an expression that can be read ends
at the brace behind it, whatever follows. A text in which each opening of an expression is shielded
by a backslash is read as itself.

## Main definitions

* `Passes`: characters in which the search for the closing brace finds none
* `Fragment.shield`: a text with a backslash in front of each opening of an expression
* `Fragment.Precedes`: which fragments follow each other

## Main results

* `TokenList.passes_of_ofChars`: characters that are cut into tokens hold no closing brace
* `Fragment.parse_expression`: an expression in front of a text
* `Fragment.parse_shield`: every text can be written literally, and how fragments follow each other
-/

namespace Stencil

/-! ### Where an expression ends -/

/-- The search for the closing brace finds none in the characters. It comes to them inside the
quotes `before`, if there are any, and leaves them inside the quotes `after`. -/
def Passes (before after : Option Char) (cs : List Char) : Prop :=
  ∀ rest, expressionBody? before (cs ++ rest) =
    (expressionBody? after rest).map (Prod.map (cs ++ ·) id)

namespace Passes

variable {before between after : Option Char} {quote c : Char} {cs ds : List Char}

theorem nil : Passes before before [] := by
  intro rest
  have hid : Prod.map (([] : List Char) ++ ·) (id : List Char → List Char) = id := rfl
  rw [List.nil_append, hid, Option.map_id, id]

theorem append (hcs : Passes before between cs) (hds : Passes between after ds) :
    Passes before after (cs ++ ds) := by
  intro rest
  rw [List.append_assoc, hcs, hds, Option.map_map]
  congr 1
  funext found
  simp [Prod.map]

theorem cons (hc : Passes before between [c]) (hcs : Passes between after cs) :
    Passes before after (c :: cs) :=
  hc.append hcs

theorem outside (hquote : ¬ IsQuote c) (hbrace : c ≠ '\x7d') : Passes none none [c] := by
  intro rest
  obtain ⟨hsingle, hdouble⟩ := not_or.1 hquote
  simp only [List.singleton_append, expressionBody?, if_neg hbrace, hsingle, hdouble]
  rfl

theorem opening (hquote : IsQuote c) : Passes none (some c) [c] := by
  intro rest
  rcases hquote with rfl | rfl <;> rfl

theorem closing (hquote : IsQuote quote) : Passes (some quote) none [quote] := by
  intro rest
  have hslash : quote ≠ '\\' := by rcases hquote with rfl | rfl <;> decide
  rw [List.singleton_append, expressionBody?.eq_def]
  simp only [if_neg hslash, if_pos]
  rfl

theorem inside (hquote : c ≠ quote) (hslash : c ≠ '\\') :
    Passes (some quote) (some quote) [c] := by
  intro rest
  rw [List.singleton_append, expressionBody?.eq_def]
  simp only [if_neg hslash, if_neg hquote]
  rfl

theorem shielded : Passes (some quote) (some quote) ['\\', c] := by
  intro rest
  rw [List.cons_append, List.singleton_append, expressionBody?, if_pos rfl]
  rfl

/-- A character of a class that has neither quotes nor the brace. -/
theorem of_class {p : Char → Bool} (hp : ['\'', '"', '\x7d'].any p = false) (hc : p c = true) :
    Passes none none [c] := by
  simp only [List.any_cons, List.any_nil, Bool.or_false, Bool.or_eq_false_iff] at hp
  obtain ⟨hsingle, hdouble, hbrace⟩ := hp
  apply outside
  · rintro (rfl | rfl)
    · exact Bool.noConfusion (hsingle.symm.trans hc)
    · exact Bool.noConfusion (hdouble.symm.trans hc)
  · rintro rfl
    exact Bool.noConfusion (hbrace.symm.trans hc)

theorem of_all {p : Char → Bool} (hp : ['\'', '"', '\x7d'].any p = false)
    (h : cs.all p = true) : Passes none none cs := by
  induction cs with
  | nil => exact nil
  | cons c cs ih =>
    rw [List.all_cons, Bool.and_eq_true] at h
    exact (of_class hp h.1).cons (ih h.2)

/-- Hexadecimal digits in a text literal. -/
theorem of_hexDigits (hquote : IsQuote quote) (h : cs.all Text.isHexDigit = true) :
    Passes (some quote) (some quote) cs := by
  induction cs with
  | nil => exact nil
  | cons c cs ih =>
    rw [List.all_cons, Bool.and_eq_true] at h
    have hc : c ≠ quote ∧ c ≠ '\\' := by
      constructor
      · rintro rfl
        rcases hquote with rfl | rfl <;> exact absurd h.1 (by decide)
      · rintro rfl
        exact absurd h.1 (by decide)
    exact (inside hc.1 hc.2).cons (ih h.2)

end Passes

theorem all_isHexDigit_of_charOfHex? {a b c d code : Char} (h : charOfHex? a b c d = some code) :
    [a, b, c, d].all Text.isHexDigit = true := by
  unfold charOfHex? at h
  split at h
  · assumption
  · cases h

/-- Inside a text literal the search comes to no quote that ends it. -/
theorem TextItems.passes {quote : Char} (hquote : IsQuote quote) {source value : List Char}
    (h : TextItems quote source value) : Passes (some quote) (some quote) source := by
  induction h with
  | nil => exact .nil
  | plain hslash hc _ ih => exact (Passes.inside hc hslash).cons ih
  | escaped _ _ ih => exact Passes.shielded.append ih
  | code hcode _ ih =>
    have hdigits := Passes.of_hexDigits hquote (all_isHexDigit_of_charOfHex? hcode)
    exact (Passes.shielded.append hdigits).append ih

theorem passes_numberLength (last : Char) (input : List Char) :
    Passes none none (input.take (numberLength last input)) := by
  fun_induction numberLength last input with
  | case1 => exact .nil
  | case2 last c rest hc ih =>
    refine .cons (.of_class (p := fun c => c.isDigit || c = '.' || c = 'e' || c = 'E') ?_ hc) ih
    decide
  | case3 last c rest hc hsign ih =>
    have hsign := (Bool.and_eq_true .. ▸ hsign).1
    refine .cons (.of_class (p := fun c => c = '-' || c = '+') ?_ hsign) ih
    decide
  | case4 => exact .nil

theorem passes_nameLength (input : List Char) :
    Passes none none (input.take (nameLength input)) := by
  fun_induction nameLength input with
  | case1 => exact .nil
  | case2 c rest hc ih =>
    have hname : (Text.isAlphanumeric c || c = '_' || c = ':') = true := by
      simp only [Bool.or_eq_true, Bool.and_eq_true] at hc ⊢
      exact hc.imp_right And.left
    refine .cons (.of_class (p := fun c => Text.isAlphanumeric c || c = '_' || c = ':') ?_ hname) ih
    decide
  | case3 => exact .nil

theorem Token.passes_of_isSign {token : Token} (h : token.isSign = true) :
    Passes none none token.describe.toList := by
  have hall : token.describe.toList.all (fun c => !(['\'', '"', '\x7d'].contains c)) = true := by
    cases token with
    | operator op => cases op <;> rfl
    | text | number | identifier | boolean | null => cases h
    | _ => rfl
  exact .of_all (by decide) hall

/-- A token holds no closing brace outside quotes. -/
theorem Token.Stands.passes {token : Token} {chars rest : List Char}
    (h : token.Stands chars rest) : Passes none none chars := by
  cases h with
  | sign hsign => exact Token.passes_of_isSign hsign
  | text hquote hitems =>
    exact (Passes.opening hquote).cons ((hitems.passes hquote).append (.closing hquote))
  | @number first more rest _ hfirst hmore =>
    have hpasses := passes_numberLength first (more ++ rest)
    rw [hmore, List.take_left] at hpasses
    refine .cons (.of_class (p := fun c => c.isDigit || c = '.') (by decide) ?_) hpasses
    rw [beginsNumber] at hfirst
    grind
  | @name first more rest _ hfirst hmore =>
    have hpasses := passes_nameLength (more ++ rest)
    rw [hmore, List.take_left] at hpasses
    exact (Passes.of_class (by decide) hfirst).cons hpasses

/-- Characters that are cut into tokens hold no closing brace outside quotes. -/
theorem TokenList.passes_of_ofChars {here : Location} {input : List Char} {tokens : TokenList}
    (h : ofChars here input = .ok tokens) : Passes none none input := by
  fun_induction ofChars here input generalizing tokens with
  | case1 => exact .nil
  | case2 here first rest hblank ih => exact (Passes.of_class (by decide) hblank).cons (ih h)
  | case3 => cases h
  | case4 => cases h
  | case5 here first rest hblank lexeme hnext following hfollowing ih =>
    have happend := (Lexeme.stands_of_next hnext).passes.append (ih hfollowing)
    rw [List.cons_append, lexeme.split] at happend
    exact happend

/-! ### An expression in front of a text -/

namespace Fragment

/-- Characters of which the search for the closing brace finds none end at a brace behind them. -/
theorem expressionBody?_of_passes {body : List Char} (h : Passes none none body)
    (after : List Char) : expressionBody? none (body ++ '\x7d' :: after) = some (body, after) := by
  have hbrace : expressionBody? none ('\x7d' :: after) = some ([], after) := rfl
  rw [h, hbrace, Option.map_some, Prod.map_apply, List.append_nil, id]

/-- The place behind an expression is the one that counting its characters gives. -/
theorem advance_expression (here : Location) (body : List Char) :
    here.advance ("$\x7b".toList ++ body ++ "\x7d".toList) =
      ((here.shift 2).advance body).shift 1 := by
  rw [Location.advance_append, Location.advance_append]
  rfl

/-- Whatever can be read as an expression is one when it stands in braces: it is found with its
place, and what follows is read as on its own. -/
theorem parse_expression {here : Location} {body : String} {e : Expression}
    (h : Expression.parse (here.shift 2) body.toList = .ok e) (rest : String) :
    parse here ("$\x7b" ++ body ++ "\x7d" ++ rest) =
      (parse (here.advance ("$\x7b" ++ body ++ "\x7d").toList) rest).map
        (.expression e here :: ·) := by
  obtain ⟨tokens, htokens, -⟩ := exists_of_bind_eq_ok h
  have hbody := expressionBody?_of_passes (TokenList.passes_of_ofChars htokens) rest.toList
  have hchars : ("$\x7b" ++ body ++ "\x7d" ++ rest).toList =
      '$' :: '\x7b' :: (body.toList ++ '\x7d' :: rest.toList) := by
    simp
  rw [parse, parse, hchars, parseAfter_of_body hbody, h, String.toList_append, String.toList_append,
    advance_expression]
  cases parseAfter [] (((here.shift 2).advance body.toList).shift 1) rest.toList <;> rfl

/-- Braces, and what would open an expression, in text literals with either kind of quotes. -/
theorem parse_expression_of_quoted_braces :
    ∃ e, Expression.parse (Location.start.shift 2)
        "a['\\'\x7d'] ==\n\"$\x7b\\u007d\"".toList = .ok e ∧
      ∀ rest, parse .start ("$\x7b" ++ "a['\\'\x7d'] ==\n\"$\x7b\\u007d\"" ++ "\x7d" ++ rest) =
        (parse ⟨2, 12⟩ rest).map (.expression e .start :: ·) := by
  obtain ⟨e, he, -⟩ : ∃ e, Expression.parse (Location.start.shift 2)
      "a['\\'\x7d'] ==\n\"$\x7b\\u007d\"".toList = .ok e ∧ e.options.isEmpty = true :=
    exists_of_any (by decide +kernel)
  exact ⟨e, he, parse_expression he⟩

/-! ### Literal texts -/

/-- Characters with a backslash in front of each opening of an expression. -/
def shieldChars : List Char → List Char
  | '$' :: '\x7b' :: rest => '\\' :: '$' :: '\x7b' :: shieldChars rest
  | c :: rest => c :: shieldChars rest
  | [] => []

/-- The text with a backslash in front of each opening of an expression. -/
def shield (s : String) : String :=
  String.ofList (shieldChars s.toList)

theorem exists_of_shieldChars_eq_brace {cs rest : List Char} (h : shieldChars cs = '\x7b' :: rest) :
    ∃ rest', cs = '\x7b' :: rest' := by
  fun_cases shieldChars cs with
  | case1 => simp [shieldChars] at h
  | case2 c rest' hopens =>
    rw [shieldChars] at h
    · exact ⟨rest', by rw [(List.cons.inj h).1]⟩
    · exact hopens
  | case3 => cases h

/-- No shielded text opens an expression. -/
theorem shieldChars_ne (cs rest : List Char) : shieldChars cs ≠ '$' :: '\x7b' :: rest := by
  intro h
  fun_cases shieldChars cs with
  | case1 => simp [shieldChars] at h
  | case2 c rest' hopens =>
    rw [shieldChars] at h
    · obtain ⟨rfl, hrest⟩ := List.cons.inj h
      obtain ⟨rest', rfl⟩ := exists_of_shieldChars_eq_brace hrest
      exact hopens _ rfl rfl
    · exact hopens
  | case3 => cases h

/-- Shielded characters are read as what they stand for. -/
theorem parseAfter_shieldChars (found : List Char) (here : Location) (cs : List Char) :
    parseAfter found here (shieldChars cs) = .ok (flush (cs.reverse ++ found) []) := by
  fun_induction shieldChars cs generalizing found here with
  | case1 rest ih =>
    rw [parseAfter, ih]
    simp
  | case2 c rest hopens ih =>
    rw [parseAfter, ih]
    · simp
    · exact fun rest' _ hrest => shieldChars_ne _ _ hrest
    · intro rest' hc hrest
      obtain ⟨rest', rfl⟩ := exists_of_shieldChars_eq_brace hrest
      exact hopens _ hc rfl
  | case3 =>
    rw [parseAfter]
    simp

/-- Which fragment may stand in front of which one: literal texts do not follow each other, and
what an expression follows does not end in a backslash. -/
def Precedes : Fragment → Fragment → Prop
  | .text _, .text _ => False
  | .text literal, .expression .. => literal.toList.getLast? ≠ some '\\'
  | .expression .., _ => True

/-- The fragments as reading leaves them: no literal text is empty, and each fragment may stand in
front of the next one. -/
structure Settled (fragments : List Fragment) : Prop where
  text_ne : ∀ literal, .text literal ∈ fragments → literal ≠ ""
  chain : fragments.IsChain Precedes

namespace Settled

variable {found : List Char} {fragments : List Fragment}

theorem nil : Settled [] :=
  ⟨fun _ h => (List.not_mem_nil h).elim, .nil⟩

theorem expression (e : Expression) (here : Location) (h : Settled fragments) :
    Settled (.expression e here :: fragments) where
  text_ne literal hliteral := by
    rcases List.mem_cons.1 hliteral with heq | hmem
    · cases heq
    · exact h.text_ne literal hmem
  chain := by
    cases fragments with
    | nil => exact .singleton _
    | cons next rest => exact .cons_cons trivial h.chain

/-- Literal text goes in front of an expression if it does not end in a backslash. -/
theorem flush (hfound : found.head? = some '\\' → fragments = [])
    (hfragments : fragments.head?.all isExpression = true) (h : Settled fragments) :
    Settled (flush found fragments) := by
  unfold Fragment.flush
  split
  · exact h
  · next hne =>
    have hfound' : found ≠ [] := fun heq => hne (by rw [heq]; rfl)
    constructor
    · intro literal hliteral
      rcases List.mem_cons.1 hliteral with heq | hmem
      · obtain rfl := Fragment.text.inj heq
        simpa [String.ext_iff] using hfound'
      · exact h.text_ne literal hmem
    · cases fragments with
      | nil => exact .singleton _
      | cons following rest =>
        refine .cons_cons ?_ h.chain
        cases following with
        | text literal => cases hfragments
        | expression e here =>
          -- With a backslash in front of it, the expression would have been text.
          intro hlast
          rw [String.toList_ofList, List.getLast?_reverse] at hlast
          cases hfound hlast

end Settled

/-- The fragments that are read have the form. The literal characters before the input end in a
backslash only if the input does not open an expression. -/
theorem settled_of_parseAfter {found input : List Char} {here : Location}
    {fragments : List Fragment} (h : parseAfter found here input = .ok fragments)
    (hfound : found.head? = some '\\' → ∀ rest, input ≠ '$' :: '\x7b' :: rest) :
    Settled fragments := by
  fun_induction parseAfter found here input generalizing fragments with
  | case1 found here =>
    obtain rfl := Except.ok.inj h
    exact Settled.nil.flush (fun _ => rfl) rfl
  | case2 found here rest ih =>
    exact ih h fun hhead => by cases hhead
  | case3 => cases h
  | case4 => cases h
  | case5 => cases h
  | case6 found here rest body after hbody parsed hparsed following hfollowing ih =>
    obtain rfl := Except.ok.inj h
    have hsettled := ih hfollowing (by simp)
    exact (hsettled.expression parsed here).flush (fun hhead => (hfound hhead _ rfl).elim) rfl
  | case7 found here c rest hshield _ ih =>
    -- If the character is a backslash, no expression follows it.
    refine ih h fun hhead rest' heq => ?_
    obtain rfl := Option.some.inj hhead
    exact hshield rest' rfl heq

theorem constant?_flush_nil (found : List Char) :
    constant? (flush found []) = some (String.ofList found.reverse) := by
  cases found with
  | nil => rfl
  | cons c found => simp [flush, constant?]

theorem isExpression_of_constant? {fragments : List Fragment} {literal : String}
    (h : constant? fragments = some literal) :
    ∀ fragment ∈ fragments, fragment.isExpression = false := by
  fun_induction constant? fragments generalizing literal with
  | case1 => simp
  | case2 first rest ih =>
    obtain ⟨following, hfollowing, -⟩ := Option.map_eq_some_iff.1 h
    exact List.forall_mem_cons.2 ⟨rfl, ih hfollowing⟩
  | case3 => cases h

/-- Every text can be written literally: with its openings of expressions shielded it is read as
itself. And of the fragments of a text, whatever they are, no literal one is empty, no two literal
ones follow each other, and none in front of an expression ends in a backslash. -/
theorem parse_shield (here : Location) (s : String) :
    (∃ fragments, parse here (shield s) = .ok fragments ∧
      (∀ fragment ∈ fragments, fragment.isExpression = false) ∧ constant? fragments = some s) ∧
    ∀ fragments, parse here s = .ok fragments →
      (∀ literal, .text literal ∈ fragments → literal ≠ "") ∧ fragments.IsChain Precedes := by
  constructor
  · have hconstant : constant? (flush s.toList.reverse []) = some s := by
      rw [constant?_flush_nil, List.reverse_reverse, String.ofList_toList]
    refine ⟨flush s.toList.reverse [], ?_, isExpression_of_constant? hconstant, hconstant⟩
    rw [parse, shield, String.toList_ofList, parseAfter_shieldChars, List.append_nil]
  · intro fragments h
    have hsettled := settled_of_parseAfter h (by simp)
    exact ⟨hsettled.text_ne, hsettled.chain⟩

/-- A text with backslashes in front of what opens an expression, and with an expression. -/
theorem parse_shield_of_backslashes :
    shield "\\\\$\x7ba$$\x7bb\x7d" = "\\\\\\$\x7ba$\\$\x7bb\x7d" ∧
      (∃ fragments, parse .start "\\\\\\$\x7ba$\\$\x7bb\x7d" = .ok fragments ∧
        constant? fragments = some "\\\\$\x7ba$$\x7bb\x7d") ∧
      ∃ fragments, parse .start "\\\\$\x7ba$$\x7bb\x7d" = .ok fragments ∧ fragments.length = 2 ∧
        fragments.IsChain Precedes := by
  have hshield : shield "\\\\$\x7ba$$\x7bb\x7d" = "\\\\\\$\x7ba$\\$\x7bb\x7d" := by decide
  obtain ⟨hliteral, hsettled⟩ := parse_shield .start "\\\\$\x7ba$$\x7bb\x7d"
  rw [hshield] at hliteral
  obtain ⟨literal, hparse, -, hconstant⟩ := hliteral
  obtain ⟨fragments, hfragments, hlength⟩ :
      ∃ fragments, parse .start "\\\\$\x7ba$$\x7bb\x7d" = .ok fragments ∧
        (fragments.length == 2) = true :=
    exists_of_any (by decide +kernel)
  exact ⟨hshield, ⟨literal, hparse, hconstant⟩, fragments, hfragments, beq_iff_eq.1 hlength,
    (hsettled fragments hfragments).2⟩

end Fragment

end Stencil
