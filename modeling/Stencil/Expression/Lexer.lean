import Stencil.Expression.Fault

/-!
# Cutting expressions into tokens

`TokenList.ofChars` cuts the characters of an expression into tokens. Blanks separate tokens and are
dropped. Every token that is cut off comes with the proof that its characters and the rest are the
input, so cutting ends and the locations are those of the first characters.

## Main definitions

* `Lexeme`: a token cut off the front of an input
* `TokenList.ofChars`: all tokens of an input
-/

namespace Stencil

/-- A token whose first character has been taken and stands before `input`: the further characters
it takes and the rest. -/
structure Lexeme (input : List Char) where
  token : Token
  more : List Char
  rest : List Char
  split : more ++ rest = input

theorem Lexeme.length_rest_le {input : List Char} (lexeme : Lexeme input) :
    lexeme.rest.length ≤ input.length := by
  simp [← lexeme.split]

/-- The value of a text literal read from the front of `input` up to its closing quote. -/
structure TextBody (input : List Char) where
  value : List Char
  source : List Char
  rest : List Char
  split : source ++ rest = input

/-- The body with the characters `more`, which stand for `c`, in front. -/
def TextBody.cons {input : List Char} (more : List Char) (c : Char) (body : TextBody input) :
    TextBody (more ++ input) :=
  { value := c :: body.value
    source := more ++ body.source
    rest := body.rest
    split := by rw [List.append_assoc, body.split] }

/-- The character with the code `n`, if there is one. -/
def charOfCode? (n : Nat) : Option Char :=
  if h : n.isValidChar then some (Char.ofNatAux n h) else none

/-- The character that four hexadecimal digits stand for. -/
def charOfHex? (a b c d : Char) : Option Char :=
  if [a, b, c, d].all Text.isHexDigit then
    charOfCode? ([a, b, c, d].foldl (fun code digit => 16 * code + Text.hexValue digit) 0)
  else none

/-- The character that a backslash and `c` stand for. -/
def unescape (c : Char) : Char :=
  match c with
  | 'n' => '\n'
  | 't' => '\t'
  | 'r' => '\r'
  | c => c

/-- The rest of a text literal after its opening quote, which is no backslash. -/
def textBody (quote : Char) : (input : List Char) → Except ExpressionFault (TextBody input)
  | [] => .error .unterminatedText
  | ['\\'] => .error .unterminatedText
  | '\\' :: 'u' :: a :: b :: c :: d :: rest =>
    match charOfHex? a b c d with
    | none => .error .badEscape
    | some code => (textBody quote rest).map (TextBody.cons ['\\', 'u', a, b, c, d] code)
  | '\\' :: c :: rest =>
    if c = 'u' then .error .badEscape
    else (textBody quote rest).map (TextBody.cons ['\\', c] (unescape c))
  | c :: rest =>
    if c = quote then .ok ⟨[], [c], rest, rfl⟩
    else (textBody quote rest).map (TextBody.cons [c] c)

/-- How many of the characters continue a number: digits, points and marks, and a sign right after a
mark. `last` is the character before them. -/
def numberLength (last : Char) : List Char → Nat
  | [] => 0
  | c :: rest =>
    if c.isDigit || c = '.' || c = 'e' || c = 'E' then numberLength c rest + 1
    else if (c = '-' || c = '+') && (last = 'e' || last = 'E') then numberLength c rest + 1
    else 0

/-- Whether a character can begin a name. -/
def beginsName (c : Char) : Bool :=
  Text.isAlphabetic c || c = '_'

/-- How many of the characters continue a name. A colon belongs to the name only if a further name
follows it. -/
def nameLength : List Char → Nat
  | [] => 0
  | c :: rest =>
    if Text.isAlphanumeric c || c = '_' || (c = ':' && rest.head?.any beginsName) then
      nameLength rest + 1
    else 0

/-- The token of a name; some names are keywords. -/
def tokenOfName (name : String) : Token :=
  if name = "true" then .boolean true
  else if name = "false" then .boolean false
  else if name = "null" then .null
  else if name = "in" then .operator .in
  else .identifier name

namespace Lexeme

/-- The token that takes `n` further characters. -/
def take (input : List Char) (token : Token) (n : Nat) : Lexeme input :=
  ⟨token, input.take n, input.drop n, List.take_append_drop n input⟩

/-- The token `double` if the next character is `c`, else `single`. -/
def oneOrTwo (input : List Char) (c : Char) (single double : Token) : Lexeme input :=
  if input.head? = some c then take input double 1 else take input single 0

/-- The number that begins with `first`. A malformed one is reported where its second character
stands. -/
def number (here : Location) (first : Char) (input : List Char) :
    Except ExpressionError (Lexeme input) :=
  let n := numberLength first input
  let digits := first :: input.take n
  match Scientific.parse? digits with
  | some value => .ok (take input (.number (value.toBinary64 false)) n)
  | none => .error ⟨here.next first, .badNumber (String.ofList digits)⟩

/-- The token that begins with `first`, which is no blank and stands at `here`. -/
def next (here : Location) (first : Char) (input : List Char) :
    Except ExpressionError (Lexeme input) :=
  let single (token : Token) : Except ExpressionError (Lexeme input) := .ok (take input token 0)
  let fail (fault : ExpressionFault) : Except ExpressionError (Lexeme input) := .error ⟨here, fault⟩
  match first with
  | '.' => if input.head?.any Char.isDigit then number here first input else single .dot
  | '[' => single .leftBracket
  | ']' => single .rightBracket
  | '(' => single .leftParen
  | ')' => single .rightParen
  | ',' => single .comma
  | '?' => single .question
  | ':' => single .colon
  | '@' => single .atSign
  | '!' => .ok (oneOrTwo input '=' .not (.operator .notEqual))
  | '=' => .ok (oneOrTwo input '=' .assign (.operator .equal))
  | '<' => .ok (oneOrTwo input '=' (.operator .lt) (.operator .leq))
  | '>' => .ok (oneOrTwo input '=' (.operator .gt) (.operator .geq))
  | '&' =>
    if input.head? = some '&' then .ok (take input (.operator .and) 1) else fail .loneAmpersand
  | '|' => if input.head? = some '|' then .ok (take input (.operator .or) 1) else fail .loneBar
  | first =>
    if first = '\'' || first = '"' then
      match textBody first input with
      | .error fault => fail fault
      | .ok body => .ok ⟨.text (String.ofList body.value), body.source, body.rest, body.split⟩
    else if first.isDigit then number here first input
    else if beginsName first then
      let n := nameLength input
      .ok (take input (tokenOfName (String.ofList (first :: input.take n))) n)
    else fail (.strayCharacter first)

end Lexeme

/-- The tokens of `input`, which begins at `here`. -/
def TokenList.ofChars (here : Location) (input : List Char) : Except ExpressionError TokenList :=
  match input with
  | [] => .ok ⟨[], here⟩
  | first :: rest =>
    if Text.isBlank first then ofChars (here.next first) rest
    else
      match Lexeme.next here first rest with
      | .error e => .error e
      | .ok lexeme =>
        match ofChars (here.advance (first :: lexeme.more)) lexeme.rest with
        | .error e => .error e
        | .ok following => .ok ⟨⟨lexeme.token, here⟩ :: following.tokens, following.finish⟩
termination_by input.length
decreasing_by
  · simp
  · have := lexeme.length_rest_le
    simp only [List.length_cons]
    omega

end Stencil
