import Stencil.Expression.Parser
import Stencil.Proofs.Lexemes
import Stencil.Proofs.Numerals

/-!
# Cutting written pieces

How the pieces that expressions are written with are cut into tokens, whatever follows them. Names
and numbers go on as long as they can, and some signs begin longer ones, so what follows these must
not continue them.

## Main definitions

* `Lexes`: characters are cut into tokens, wherever they stand
* `IsName`: a name that is cut off as a whole

## Main results

* `Lexes.ofName`, `Lexes.ofNumber`, `Lexes.ofText`, `Lexes.ofOperator`: the pieces
* `Lexes.identifier_iff`: the names that are identifiers
-/

namespace Stencil

/-- Characters are cut into tokens, wherever they stand. -/
def Lexes (input : List Char) (tokens : List Token) : Prop :=
  ∀ here, ∃ placed finish,
    TokenList.ofChars here input = .ok ⟨placed, finish⟩ ∧ placed.map (·.token) = tokens

/-- A token at the front of characters, the first of which is `first`. -/
def Cuts (first : Char) (input : List Char) (token : Token) (rest : List Char) : Prop :=
  ∀ here, ∃ lexeme, Lexeme.next here first input = .ok lexeme ∧
    lexeme.token = token ∧ lexeme.rest = rest

namespace Lexes

variable {first : Char} {input rest : List Char} {token : Token} {tokens : List Token}

theorem nil : Lexes [] [] := fun here => ⟨[], here, by rw [TokenList.ofChars], rfl⟩

theorem blank (hrest : Lexes rest tokens) : Lexes (' ' :: rest) tokens := by
  intro here
  obtain ⟨placed, finish, hchars, htokens⟩ := hrest (here.next ' ')
  refine ⟨placed, finish, ?_, htokens⟩
  rw [TokenList.ofChars, if_pos (by decide), hchars]

theorem cut (hblank : Text.isBlank first = false) (hcut : Cuts first input token rest)
    (hrest : Lexes rest tokens) : Lexes (first :: input) (token :: tokens) := by
  intro here
  obtain ⟨lexeme, hnext, rfl, rfl⟩ := hcut here
  obtain ⟨placed, finish, hchars, rfl⟩ := hrest (here.advance (first :: lexeme.more))
  refine ⟨⟨lexeme.token, here⟩ :: placed, finish, ?_, rfl⟩
  rw [TokenList.ofChars, if_neg (by simp [hblank])]
  simp only [hnext, hchars]

/-- A token of one character. -/
theorem single (hblank : Text.isBlank first = false)
    (hnext : ∀ here, Lexeme.next here first rest = .ok (.take rest token 0))
    (hrest : Lexes rest tokens) : Lexes (first :: rest) (token :: tokens) :=
  hrest.cut hblank fun here => ⟨_, hnext here, rfl, rfl⟩

theorem leftParen (h : Lexes rest tokens) : Lexes ('(' :: rest) (.leftParen :: tokens) :=
  h.single (by decide) fun _ => rfl

theorem rightParen (h : Lexes rest tokens) : Lexes (')' :: rest) (.rightParen :: tokens) :=
  h.single (by decide) fun _ => rfl

theorem leftBracket (h : Lexes rest tokens) : Lexes ('[' :: rest) (.leftBracket :: tokens) :=
  h.single (by decide) fun _ => rfl

theorem rightBracket (h : Lexes rest tokens) : Lexes (']' :: rest) (.rightBracket :: tokens) :=
  h.single (by decide) fun _ => rfl

theorem comma (h : Lexes rest tokens) : Lexes (',' :: rest) (.comma :: tokens) :=
  h.single (by decide) fun _ => rfl

theorem question (h : Lexes rest tokens) : Lexes ('?' :: rest) (.question :: tokens) :=
  h.single (by decide) fun _ => rfl

theorem colon (h : Lexes rest tokens) : Lexes (':' :: rest) (.colon :: tokens) :=
  h.single (by decide) fun _ => rfl

theorem atSign (h : Lexes rest tokens) : Lexes ('@' :: rest) (.atSign :: tokens) :=
  h.single (by decide) fun _ => rfl

end Lexes

/-! ### Names -/

/-- A name that is cut off as a whole, unless something follows that continues it. -/
def IsName : List Char → Prop
  | [] => False
  | first :: more =>
    Text.isBlank first = false ∧ first.isDigit = false ∧ beginsName first = true ∧
      nameLength more = more.length

instance : DecidablePred IsName
  | [] => inferInstanceAs (Decidable False)
  | first :: more => inferInstanceAs (Decidable (Text.isBlank first = false ∧
      first.isDigit = false ∧ beginsName first = true ∧ nameLength more = more.length))

theorem IsName.head?_append {name : List Char} (hname : IsName name) (rest : List Char) :
    (name ++ rest).head?.any Char.isDigit = false := by
  cases name with
  | nil => cases hname
  | cons first more => exact hname.2.1

theorem nameLength_append {more rest : List Char} (hmore : nameLength more = more.length)
    (hrest : nameLength rest = 0) : nameLength (more ++ rest) = more.length := by
  induction more with
  | nil => exact hrest
  | cons c more ih =>
    rw [nameLength] at hmore
    split at hmore
    case isFalse => cases hmore
    case isTrue hc =>
      rw [List.cons_append, nameLength, if_pos, ih (Nat.succ.inj hmore), List.length_cons]
      -- After a colon the name goes on, so what follows the colon is the same with the rest.
      cases more with
      | nil =>
        simp only [List.head?_nil, Option.any_none, Bool.and_false, Bool.or_false] at hc
        rw [hc, Bool.true_or]
      | cons next more => exact hc

namespace Lexeme

variable {here : Location} {first : Char} {input : List Char}

theorem next_name (hdigit : first.isDigit = false) (hbegins : beginsName first = true) :
    next here first input =
      .ok (take input (tokenOfName (String.ofList (first :: input.take (nameLength input))))
        (nameLength input)) := by
  have hquote : first ≠ '\'' ∧ first ≠ '"' := by
    constructor <;> rintro rfl <;> exact absurd hbegins (by decide)
  unfold next
  split
  case h_16 => simp [hquote, hdigit, hbegins]
  all_goals exact absurd hbegins (by decide)

theorem next_digit (hdigit : first.isDigit = true) :
    next here first input = number here first input := by
  have hquote : first ≠ '\'' ∧ first ≠ '"' := by
    constructor <;> rintro rfl <;> exact absurd hdigit (by decide)
  unfold next
  split
  case h_16 => simp [hquote, hdigit]
  all_goals exact absurd hdigit (by decide)

end Lexeme

/-- An identifier is not longer than the characters it is cut off. -/
theorem length_le_of_identifier {here : Location} {input : List Char} {list : TokenList}
    (h : TokenList.ofChars here input = .ok list) {name : String}
    (hname : .identifier name ∈ list.tokens.map (·.token)) :
    name.toList.length ≤ input.length := by
  fun_induction TokenList.ofChars here input generalizing list with
  | case1 here =>
    obtain rfl := Except.ok.inj h
    cases hname
  | case2 here first rest hblank ih => exact (ih h hname).trans (Nat.le_succ _)
  | case3 => cases h
  | case4 => cases h
  | case5 here first rest hblank lexeme hnext following hrest ih =>
    obtain rfl := Except.ok.inj h
    rcases List.mem_cons.1 hname with htoken | hfollowing
    · have hname := ((Lexeme.stands_of_next hnext).of_identifier htoken.symm).1
      rw [← hname, String.toList_ofList, List.length_cons, List.length_cons]
      exact Nat.succ_le_succ (List.IsPrefix.length_le ⟨_, lexeme.split⟩)
    · exact (ih hrest hfollowing).trans (lexeme.length_rest_le.trans (Nat.le_succ _))

namespace Lexes

variable {name : String} {rest : List Char} {tokens : List Token}

/-- A name in front of what does not continue it. -/
theorem ofName (hname : IsName name.toList) (hstop : nameLength rest = 0)
    (hrest : Lexes rest tokens) : Lexes (name.toList ++ rest) (tokenOfName name :: tokens) := by
  cases hchars : name.toList with
  | nil => rw [hchars] at hname; cases hname
  | cons first more =>
    rw [hchars] at hname
    obtain ⟨hblank, hdigit, hbegins, hmore⟩ := hname
    have hlength := nameLength_append hmore hstop
    have htoken : String.ofList (first :: (more ++ rest).take (nameLength (more ++ rest))) = name := by
      rw [hlength, List.take_left, ← hchars, String.ofList_toList]
    have hdrop : (more ++ rest).drop (nameLength (more ++ rest)) = rest := by
      rw [hlength, List.drop_left]
    rw [List.cons_append]
    exact hrest.cut hblank fun here =>
      ⟨_, Lexeme.next_name hdigit hbegins, congrArg tokenOfName htoken, hdrop⟩

/-- What is cut into itself as an identifier is a name, and no keyword. -/
theorem identifier_iff :
    Lexes name.toList [.identifier name] ↔
      IsName name.toList ∧ tokenOfName name = .identifier name := by
  constructor
  · intro h
    obtain ⟨placed, finish, hchars, htokens⟩ := h default
    have hmem : .identifier name ∈ placed.map (·.token) := by simp [htokens]
    cases hname : name.toList with
    | nil =>
      rw [hname, TokenList.ofChars] at hchars
      cases hchars
      cases hmem
    | cons first more =>
      rw [hname, TokenList.ofChars] at hchars
      split at hchars
      · -- Behind a blank there is no room for the whole name.
        have hlength := length_le_of_identifier hchars hmem
        rw [hname, List.length_cons] at hlength
        omega
      next hblank =>
        split at hchars; · cases hchars
        next lexeme hnext =>
        split at hchars; · cases hchars
        cases hchars
        have htoken : lexeme.token = .identifier name := (List.cons.inj htokens).1
        obtain ⟨heq, hidentifier, hdigit, hbegins, hlength⟩ :=
          (Lexeme.stands_of_next hnext).of_identifier htoken
        have hmore : first :: lexeme.more = first :: more := by
          rw [← hname, ← heq, String.toList_ofList]
        rw [lexeme.split, (List.cons.inj hmore).2] at hlength
        exact ⟨⟨Bool.eq_false_iff.2 hblank, hdigit, hbegins, hlength⟩, hidentifier⟩
  · rintro ⟨hname, htoken⟩
    have h := ofName hname rfl nil
    rwa [List.append_nil, htoken] at h

end Lexes

/-! ### Numbers -/

theorem numberLength_append {last : Char} {digits rest : List Char}
    (hdigits : ∀ c ∈ digits, c.isDigit = true) (hrest : ∀ last, numberLength last rest = 0) :
    numberLength last (digits ++ rest) = digits.length := by
  induction digits generalizing last with
  | nil => exact hrest last
  | cons c digits ih =>
    obtain ⟨hc, hdigits⟩ := List.forall_mem_cons.1 hdigits
    rw [List.cons_append, numberLength, if_pos (by simp [hc]), ih hdigits, List.length_cons]

/-- A natural number of at most fifteen digits. A zero may have a sign. -/
def Binary64.IsNatural (value : Binary64) : Prop :=
  value.Canonical ∧ ∃ n : Nat, value.integer? = some (n : Int) ∧ n < Nat.pow 10 15

theorem isBlank_of_isDigit {c : Char} (h : c.isDigit = true) : Text.isBlank c = false := by
  rw [Char.isDigit, Bool.and_eq_true, decide_eq_true_eq, decide_eq_true_eq] at h
  obtain ⟨hlow, hhigh⟩ := h
  have hascii : c.val < 0x80 := UInt32.lt_of_le_of_lt hhigh (by decide)
  have hspace : c ≠ ' ' := by
    rintro rfl
    exact absurd hlow (by decide)
  have hreturn : ¬ c ≤ '\r' := fun hle => absurd (UInt32.le_trans hlow hle) (by decide)
  simp [Text.isBlank, hascii, hspace, hreturn]

/-- A numeral in front of what does not continue it. -/
theorem Lexes.ofNumber {value : Binary64} (hvalue : value.IsNatural) {rest : List Char}
    {tokens : List Token} (hstop : ∀ last, numberLength last rest = 0) (hrest : Lexes rest tokens) :
    Lexes ((Term.writeNumber value).toList ++ rest) (.number value.withoutZeroSign :: tokens) := by
  obtain ⟨hcanonical, n, hinteger, hlt⟩ := hvalue
  obtain ⟨read, hparse, hread⟩ := Term.exists_parse?_writeNumber hcanonical hinteger hlt
  have hdigits : ∀ c ∈ (Term.writeNumber value).toList, c.isDigit = true := by
    rw [Term.writeNumber_of_integer? hinteger hlt]
    exact fun c => Nat.isDigit_of_mem_toDigits (by decide) (by decide)
  cases hchars : (Term.writeNumber value).toList with
  | nil => rw [hchars] at hparse; cases hparse
  | cons first more =>
    rw [hchars] at hdigits hparse
    obtain ⟨hfirst, hmore⟩ := List.forall_mem_cons.1 hdigits
    have hlength : numberLength first (more ++ rest) = more.length :=
      numberLength_append hmore hstop
    rw [List.cons_append]
    refine hrest.cut (isBlank_of_isDigit hfirst) fun here => ?_
    refine ⟨.take (more ++ rest) (.number (read.toBinary64 false)) more.length, ?_, ?_, ?_⟩
    · simp only [Lexeme.next_digit hfirst, Lexeme.number, hlength, List.take_left, hparse]
    · exact congrArg Token.number hread
    · exact List.drop_left

/-! ### Texts -/

section Texts

variable {quote c : Char} {rest : List Char}

theorem textBody_plain (hslash : c ≠ '\\') (hquote : c ≠ quote) :
    textBody quote (c :: rest) = (textBody quote rest).map (TextBody.cons [c] c) := by
  rw [textBody, if_neg hquote]
  all_goals simp [hslash]

theorem textBody_escaped (hcode : c ≠ 'u') :
    textBody quote ('\\' :: c :: rest) =
      (textBody quote rest).map (TextBody.cons ['\\', c] (unescape c)) := by
  rw [textBody, if_neg hcode]
  simp [hcode]

end Texts

/-- A character stands for itself, or is written as a backslash and another character. -/
theorem Term.toList_escape (c : Char) :
    ((escape c).toList = [c] ∧ c ≠ '\\' ∧ c ≠ '\'') ∨
      ∃ mark, (escape c).toList = ['\\', mark] ∧ mark ≠ 'u' ∧ unescape mark = c := by
  fun_cases escape c with
  | case6 _ hquote hslash => exact .inl ⟨String.toList_singleton c, hslash, hquote⟩
  | _ => exact .inr ⟨_, rfl, by decide, rfl⟩

theorem Term.toList_quote (value : String) :
    (quote value).toList =
      '\'' :: ((value.toList.flatMap fun c => (escape c).toList) ++ ['\'']) := by
  have hfold (chars : List Char) (written : String) :
      (chars.foldl (fun written c => written ++ escape c) written).toList =
        written.toList ++ chars.flatMap fun c => (escape c).toList := by
    induction chars generalizing written with
    | nil => simp
    | cons c chars ih => simp [ih]
  rw [quote, String.toList_append, hfold]
  rfl

theorem exists_textBody (value rest : List Char) :
    ∃ body, textBody '\'' ((value.flatMap fun c => (Term.escape c).toList) ++ '\'' :: rest) =
      .ok body ∧ body.value = value ∧ body.rest = rest := by
  induction value with
  | nil => exact ⟨⟨[], ['\''], rest, rfl⟩, rfl, rfl, rfl⟩
  | cons c value ih =>
    obtain ⟨body, hbody, hvalue, hrest⟩ := ih
    rw [List.flatMap_cons, List.append_assoc]
    rcases Term.toList_escape c with ⟨hchars, hslash, hquote⟩ | ⟨mark, hchars, hcode, rfl⟩
    · rw [hchars, List.singleton_append, textBody_plain hslash hquote, hbody]
      exact ⟨_, rfl, congrArg (c :: ·) hvalue, hrest⟩
    · rw [hchars, List.cons_append, List.singleton_append, textBody_escaped hcode, hbody]
      exact ⟨_, rfl, congrArg (_ :: ·) hvalue, hrest⟩

namespace Lexes

variable {rest : List Char} {tokens : List Token}

/-- A text literal in front of anything. -/
theorem ofText (value : String) (hrest : Lexes rest tokens) :
    Lexes ((Term.quote value).toList ++ rest) (.text value :: tokens) := by
  obtain ⟨body, hbody, hvalue, hbodyRest⟩ := exists_textBody value.toList rest
  rw [Term.toList_quote, List.cons_append, List.append_assoc, List.singleton_append]
  refine hrest.cut (by decide) fun here => ?_
  refine ⟨⟨.text (String.ofList body.value), body.source, body.rest, body.split⟩, ?_, ?_, hbodyRest⟩
  · simp [Lexeme.next, hbody]
  · exact congrArg Token.text (by rw [hvalue, String.ofList_toList])

/-! ### Operators -/

theorem ofOperator (op : BinaryOperator) (hrest : Lexes rest tokens) :
    Lexes (op.symbol.toList ++ ' ' :: rest) (.operator op :: tokens) := by
  cases op with
  | «in» => exact ofName (by decide) rfl hrest.blank
  | _ => exact hrest.blank.cut (by decide) fun _ => ⟨_, rfl, rfl, rfl⟩

/-- A sign that begins a longer one, in front of what does not make it longer. -/
theorem not (hstop : rest.head? ≠ some '=') (hrest : Lexes rest tokens) :
    Lexes ('!' :: rest) (.not :: tokens) :=
  hrest.single (by decide) fun _ => congrArg Except.ok (if_neg hstop)

theorem assign (hstop : rest.head? ≠ some '=') (hrest : Lexes rest tokens) :
    Lexes ('=' :: rest) (.assign :: tokens) :=
  hrest.single (by decide) fun _ => congrArg Except.ok (if_neg hstop)

theorem dot (hstop : rest.head?.any Char.isDigit = false) (hrest : Lexes rest tokens) :
    Lexes ('.' :: rest) (.dot :: tokens) :=
  hrest.single (by decide) fun _ => if_neg (Bool.eq_false_iff.1 hstop)

end Lexes

end Stencil
