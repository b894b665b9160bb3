import Stencil.Expression.Lexer

/-!
# Tokens at the front of characters

What a token looks like is said here without the functions that cut it: how it is written, and that
nothing which follows belongs to it. All that can be cut off is such a token, so what holds of
tokens that are cut off is found token by token, and not branch by branch.

## Main definitions

* `TextItems`: the characters of a text literal, and what they stand for
* `Token.Stands`: characters that are a token in front of others
* `ExpressionFault.Occurs`: characters that begin no token

## Main results

* `Lexeme.tells_next`: what is cut off as one token, and what is wrong if nothing is
-/

namespace Stencil

/-! ### Text literals -/

/-- The characters `'` and `"`. -/
def IsQuote (c : Char) : Prop := c = '\'' ∨ c = '"'

instance : DecidablePred IsQuote := fun c => inferInstanceAs (Decidable (c = '\'' ∨ c = '"'))

/-- The characters of a text literal between its quotes, and the characters that they stand for. -/
inductive TextItems (quote : Char) : List Char → List Char → Prop
  | nil : TextItems quote [] []
  | plain {c : Char} {source value : List Char} (hslash : c ≠ '\\') (hquote : c ≠ quote)
      (h : TextItems quote source value) : TextItems quote (c :: source) (c :: value)
  | escaped {c : Char} {source value : List Char} (hcode : c ≠ 'u')
      (h : TextItems quote source value) :
      TextItems quote ('\\' :: c :: source) (unescape c :: value)
  | code {a b c d char : Char} {source value : List Char}
      (hcode : charOfHex? a b c d = some char) (h : TextItems quote source value) :
      TextItems quote ('\\' :: 'u' :: a :: b :: c :: d :: source) (char :: value)

/-- What is wrong with the characters after an opening quote: they end before the closing one, or a
code does not have four digits that are those of a character. -/
inductive TextFault (quote : Char) : ExpressionFault → List Char → Prop
  | unterminated {source value : List Char} (h : TextItems quote source value) :
      TextFault quote .unterminatedText source
  | loneSlash {source value : List Char} (h : TextItems quote source value) :
      TextFault quote .unterminatedText (source ++ ['\\'])
  | badEscape {source value tail : List Char} (h : TextItems quote source value)
      (hcode : ∀ a b c d more, tail = a :: b :: c :: d :: more → charOfHex? a b c d = none) :
      TextFault quote .badEscape (source ++ '\\' :: 'u' :: tail)

/-- What reading a text literal after its opening quote tells about its characters. -/
def TellsText (quote : Char) {input : List Char} : Except ExpressionFault (TextBody input) → Prop
  | .ok body => ∃ source, TextItems quote source body.value ∧ body.source = source ++ [quote]
  | .error fault => TextFault quote fault input

theorem TellsText.map_cons {quote c : Char} {input more : List Char}
    {read : Except ExpressionFault (TextBody input)} (h : TellsText quote read)
    (hmore : ∀ {source value}, TextItems quote source value →
      TextItems quote (more ++ source) (c :: value)) :
    TellsText quote (read.map (TextBody.cons more c)) := by
  cases read with
  | ok body =>
    obtain ⟨source, hitems, hsource⟩ := h
    refine ⟨more ++ source, hmore hitems, ?_⟩
    rw [List.append_assoc, ← hsource]
    rfl
  | error fault =>
    have hfault : TextFault quote fault input := h
    change TextFault quote fault (more ++ input)
    cases hfault with
    | unterminated hitems => exact .unterminated (hmore hitems)
    | loneSlash hitems =>
      rw [← List.append_assoc]
      exact .loneSlash (hmore hitems)
    | badEscape hitems hcode =>
      rw [← List.append_assoc]
      exact .badEscape (hmore hitems) hcode

theorem tellsText_textBody (quote : Char) (input : List Char) :
    TellsText quote (textBody quote input) := by
  fun_induction textBody quote input with
  | case1 => exact .unterminated .nil
  | case2 => exact .loneSlash .nil
  | case3 a b c d rest hcode =>
    refine TextFault.badEscape .nil fun a' b' c' d' more heq => ?_
    cases heq
    exact hcode
  | case4 a b c d rest char hcode ih => exact ih.map_cons (.code hcode)
  | case5 rest hshort =>
    refine TextFault.badEscape .nil fun a b c d more heq => ?_
    exact (hshort a b c d more rfl heq).elim
  | case6 c rest _ hcode ih => exact ih.map_cons (.escaped hcode)
  | case7 rest => exact ⟨[], .nil, rfl⟩
  | case8 c rest hlone _ hshield hc ih =>
    have hslash : c ≠ '\\' := by
      rintro rfl
      cases rest with
      | nil => exact hlone rfl rfl
      | cons c rest => exact hshield c rest rfl rfl
    exact ih.map_cons (.plain hslash hc)

/-! ### One token -/

/-- Whether a token is written with signs. -/
def Token.isSign : Token → Bool
  | .text _ | .number _ | .identifier _ | .boolean _ | .null | .operator .in => false
  | _ => true

/-- Whether a sign is another one, or the beginning of a number, with what follows it. -/
def Token.continues : Token → List Char → Bool
  | .dot, rest => rest.head?.any Char.isDigit
  | .not, rest | .assign, rest | .operator .lt, rest | .operator .gt, rest => rest.head? = some '='
  | _, _ => false

/-- Whether a number begins with a character and the characters after it. -/
def beginsNumber (first : Char) (rest : List Char) : Bool :=
  first.isDigit || first = '.' && rest.head?.any Char.isDigit

/-- The characters are written for the token, and nothing of what follows them belongs to it. -/
inductive Token.Stands : Token → List Char → List Char → Prop
  | sign {token : Token} {rest : List Char} (hsign : token.isSign = true)
      (hstop : token.continues rest = false) : Stands token token.describe.toList rest
  | text {quote : Char} {source value rest : List Char} (hquote : IsQuote quote)
      (h : TextItems quote source value) :
      Stands (.text (String.ofList value)) (quote :: (source ++ [quote])) rest
  | number {first : Char} {more rest : List Char} {value : Scientific}
      (hfirst : beginsNumber first (more ++ rest) = true)
      (hmore : numberLength first (more ++ rest) = more.length)
      (hvalue : Scientific.parse? (first :: more) = some value) :
      Stands (.number (value.toBinary64 false)) (first :: more) rest
  | name {first : Char} {more rest : List Char} (hdigit : first.isDigit = false)
      (hfirst : beginsName first = true) (hmore : nameLength (more ++ rest) = more.length) :
      Stands (tokenOfName (String.ofList (first :: more))) (first :: more) rest

theorem Token.stands_sign {token : Token} {chars rest : List Char} (hsign : token.isSign = true)
    (hchars : token.describe.toList = chars) (hstop : token.continues rest = false) :
    token.Stands chars rest :=
  hchars ▸ .sign hsign hstop

/-- Whether a token can begin with a character. -/
def beginsToken (c : Char) : Bool :=
  ['.', '[', ']', '(', ')', ',', '?', ':', '@', '!', '=', '<', '>', '&', '|', '\'', '"'].contains c
    || c.isDigit || beginsName c

/-- What is wrong with characters that begin no token. -/
inductive ExpressionFault.Occurs : ExpressionFault → Char → List Char → Prop
  | loneAmpersand {rest : List Char} (h : rest.head? ≠ some '&') : Occurs .loneAmpersand '&' rest
  | loneBar {rest : List Char} (h : rest.head? ≠ some '|') : Occurs .loneBar '|' rest
  | text {fault : ExpressionFault} {quote : Char} {rest : List Char} (hquote : IsQuote quote)
      (h : TextFault quote fault rest) : Occurs fault quote rest
  | badNumber {first : Char} {more rest : List Char}
      (hfirst : beginsNumber first (more ++ rest) = true)
      (hmore : numberLength first (more ++ rest) = more.length)
      (h : Scientific.parse? (first :: more) = none) :
      Occurs (.badNumber (String.ofList (first :: more))) first (more ++ rest)
  | strayCharacter {first : Char} {rest : List Char} (h : beginsToken first = false) :
      Occurs (.strayCharacter first) first rest

/-- Whether a fault is that of a malformed number. -/
def ExpressionFault.isBadNumber : ExpressionFault → Bool
  | .badNumber _ => true
  | _ => false

theorem TextFault.isBadNumber_eq {quote : Char} {fault : ExpressionFault} {input : List Char}
    (h : TextFault quote fault input) : fault.isBadNumber = false := by
  cases h <;> rfl

namespace Lexeme

variable {here : Location} {first : Char} {input : List Char}

/-- What cutting off a token tells about the characters, and where a fault is reported. -/
def Tells (here : Location) (first : Char) {input : List Char} :
    Except ExpressionError (Lexeme input) → Prop
  | .ok lexeme => lexeme.token.Stands (first :: lexeme.more) lexeme.rest
  | .error e => e.fault.Occurs first input ∧
      e.location = here.advance (if e.fault.isBadNumber then [first] else [])

theorem nameLength_le (input : List Char) : nameLength input ≤ input.length := by
  induction input with
  | nil => exact Nat.le_refl 0
  | cons c rest ih =>
    rw [nameLength]
    split
    · exact Nat.succ_le_succ ih
    · exact Nat.zero_le _

theorem numberLength_le (last : Char) (input : List Char) :
    numberLength last input ≤ input.length := by
  fun_induction numberLength last input with
  | case1 => exact Nat.le_refl 0
  | case2 last c rest _ ih => exact Nat.succ_le_succ ih
  | case3 last c rest _ _ ih => exact Nat.succ_le_succ ih
  | case4 => exact Nat.zero_le _

theorem tells_number (hfirst : beginsNumber first input = true) :
    Tells here first (number here first input) := by
  have hsplit : input.take (numberLength first input) ++ input.drop (numberLength first input) =
      input := List.take_append_drop ..
  have hbegins : beginsNumber first (input.take (numberLength first input) ++
      input.drop (numberLength first input)) = true := by rwa [hsplit]
  have hmore : numberLength first (input.take (numberLength first input) ++
      input.drop (numberLength first input)) = (input.take (numberLength first input)).length := by
    rw [hsplit, List.length_take, Nat.min_eq_left (numberLength_le first input)]
  simp only [number]
  split
  next value hvalue => exact .number hbegins hmore hvalue
  next hvalue =>
    have hoccurs := ExpressionFault.Occurs.badNumber hbegins hmore hvalue
    rw [hsplit] at hoccurs
    exact ⟨hoccurs, rfl⟩

theorem tells_name (hdigit : first.isDigit = false) (hfirst : beginsName first = true) :
    (tokenOfName (String.ofList (first :: input.take (nameLength input)))).Stands
      (first :: input.take (nameLength input)) (input.drop (nameLength input)) := by
  refine .name hdigit hfirst ?_
  rw [List.take_append_drop, List.length_take, Nat.min_eq_left (nameLength_le input)]

theorem tells_text (hquote : IsQuote first) :
    Tells here first (match textBody first input with
      | .error fault => .error ⟨here, fault⟩
      | .ok body =>
        .ok ⟨.text (String.ofList body.value), body.source, body.rest, body.split⟩) := by
  have htells := tellsText_textBody first input
  cases hbody : textBody first input with
  | error fault =>
    rw [hbody] at htells
    refine ⟨.text hquote htells, ?_⟩
    rw [TextFault.isBadNumber_eq htells]
    rfl
  | ok body =>
    rw [hbody] at htells
    obtain ⟨source, hitems, hsource⟩ := htells
    have hstands : (Token.text (String.ofList body.value)).Stands (first :: body.source)
        body.rest := by
      rw [hsource]
      exact .text hquote hitems
    exact hstands

theorem tells_single {token : Token} (hsign : token.isSign = true)
    (hchars : token.describe.toList = [first]) (hstop : token.continues input = false) :
    Tells here first (.ok (take input token 0)) :=
  Token.stands_sign hsign hchars hstop

theorem tells_double {token : Token} {c : Char} (hhead : input.head? = some c)
    (hsign : token.isSign = true) (hchars : token.describe.toList = [first, c])
    (hstop : ∀ rest, token.continues rest = false) :
    Tells here first (.ok (take input token 1)) := by
  obtain ⟨rest, rfl⟩ := List.head?_eq_some_iff.1 hhead
  exact Token.stands_sign hsign hchars (hstop rest)

/-- A sign of one character, or of two if an equality sign follows. -/
theorem tells_oneOrTwo {single double : Token}
    (hsingle : single.isSign = true) (hchars : single.describe.toList = [first])
    (hdouble : double.isSign = true) (hchars' : double.describe.toList = [first, '='])
    (hstop : ∀ rest, single.continues rest = decide (rest.head? = some '='))
    (hends : ∀ rest, double.continues rest = false) :
    Tells here first (.ok (oneOrTwo input '=' single double)) := by
  rw [oneOrTwo]
  split
  next hhead => exact tells_double hhead hdouble hchars' hends
  next hhead => exact tells_single hsingle hchars ((hstop input).trans (decide_eq_false hhead))

/-- What is cut off is a token, and nothing more belongs to it; a fault is reported at the first
character, or behind it for a malformed number. -/
theorem tells_next (here : Location) (first : Char) (input : List Char) :
    Tells here first (next here first input) := by
  unfold next
  split
  -- The point, which may begin a number.
  case h_1 =>
    dsimp only
    split
    next hdigit => exact tells_number (by rw [beginsNumber, hdigit]; rfl)
    next hdigit => exact tells_single rfl rfl (Bool.eq_false_iff.2 hdigit)
  -- What may be followed by an equality sign.
  case h_10 | h_11 | h_12 | h_13 =>
    exact tells_oneOrTwo rfl rfl rfl rfl (fun _ => rfl) fun _ => rfl
  -- The doubled signs.
  case h_14 =>
    dsimp only
    split
    next hhead => exact tells_double hhead rfl rfl fun _ => rfl
    next hhead => exact ⟨.loneAmpersand hhead, rfl⟩
  case h_15 =>
    dsimp only
    split
    next hhead => exact tells_double hhead rfl rfl fun _ => rfl
    next hhead => exact ⟨.loneBar hhead, rfl⟩
  case h_16 =>
    dsimp only
    split
    next hquote => exact tells_text (by simpa [IsQuote] using hquote)
    next hquote =>
      split
      next hdigit => exact tells_number (by rw [beginsNumber, hdigit]; rfl)
      next hdigit =>
        split
        next hbegins => exact tells_name (Bool.eq_false_iff.2 hdigit) hbegins
        next hbegins => exact ⟨.strayCharacter (by simp_all [beginsToken]), rfl⟩
  -- The signs of one character.
  all_goals exact tells_single rfl rfl rfl

/-- What is cut off is a token. -/
theorem stands_of_next {lexeme : Lexeme input} (h : next here first input = .ok lexeme) :
    lexeme.token.Stands (first :: lexeme.more) lexeme.rest := by
  have htells := tells_next here first input
  rwa [h] at htells

end Lexeme

theorem eq_of_tokenOfName {name other : String} (h : tokenOfName name = .identifier other) :
    name = other := by
  unfold tokenOfName at h
  split at h; · cases h
  split at h; · cases h
  split at h; · cases h
  split at h; · cases h
  exact Token.identifier.inj h

/-- An identifier is the characters that it is cut off as, and they are those of a name. -/
theorem Token.Stands.of_identifier {token : Token} {name : String} {first : Char}
    {more rest : List Char} (h : token.Stands (first :: more) rest)
    (htoken : token = .identifier name) :
    String.ofList (first :: more) = name ∧ tokenOfName name = .identifier name ∧
      first.isDigit = false ∧ beginsName first = true ∧
      nameLength (more ++ rest) = more.length := by
  generalize hchars : first :: more = chars at h ⊢
  cases h with
  | sign hsign =>
    subst htoken
    cases hsign
  | text => cases htoken
  | number => cases htoken
  | name hdigit hfirst hmore =>
    cases hchars
    have heq := eq_of_tokenOfName htoken
    exact ⟨heq, heq ▸ htoken, hdigit, hfirst, hmore⟩

end Stencil
