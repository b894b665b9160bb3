import Stencil.Expression.Basic
import Stencil.Expression.Lexer

/-!
# Reading expressions

The grammar, from the loosest to the tightest binding:

```text
expression = [term] ["@" option {"," option}]
option     = (identifier | "in") ["=" term]
term       = or ["?" term ":" term]
or         = and {"||" and}
and        = comparison {"&&" comparison}
comparison = unary [("==" | "!=" | "<" | "<=" | ">" | ">=" | "in") unary]
unary      = "!" unary | postfix
postfix    = primary {"." (identifier | number) | "[" term "]"}
primary    = literal | identifier | "(" term ")" | "[" [term {"," term}] "]"
```

Terms and negations may be nested `maxNesting` deep, which is also what the readers recurse on: the
reader of one level is built from that of the level below. Taking a token at the end of the tokens
gives the token taken before once more.

## Main definitions

* `Cursor`: the tokens still to be read
* `Level`: the readers of terms and of operands at one level of nesting
* `Expression.ofTokens`, `Expression.parse`: reading an expression
-/

namespace Stencil

/-- The tokens still to be read, and the token taken last. -/
structure Cursor where
  last : PlacedToken
  rest : List PlacedToken
  finish : Location

namespace Cursor

/-- The next token, if there is one. -/
def peek (c : Cursor) : Option Token :=
  c.rest.head?.map (·.token)

/-- Where the next token stands, or the end. -/
def location (c : Cursor) : Location :=
  match c.rest with
  | [] => c.finish
  | next :: _ => next.location

/-- The cursor after the next token. At the end it stays. -/
def advance (c : Cursor) : Cursor :=
  match c.rest with
  | [] => c
  | next :: rest => { c with last := next, rest }

/-- The failure `fault` at the next token. -/
def fail {α : Type} (c : Cursor) (fault : ExpressionFault) : Except ExpressionError α :=
  .error ⟨c.location, fault⟩

/-- The cursor after the next token, which has to be `token`. -/
def expect (c : Cursor) (token : Token) (needed : Expectation) : Except ExpressionError Cursor :=
  if c.peek = some token then .ok c.advance else c.fail (.missing needed c.peek)

end Cursor

/-- A reader takes something off the front of the tokens. -/
abbrev TermReader := Cursor → Except ExpressionError (Term × Cursor)

namespace TermReader

/-- Further operands of the left-associative operator `op`, joined to `left`. -/
def chainAfter (op : BinaryOperator) (operand : TermReader) (left : Term) (c : Cursor) :
    Except ExpressionError (Term × Cursor) :=
  if c.peek = some (.operator op) then
    match operand c.advance with
    | .error e => .error e
    | .ok (right, next) =>
      -- The operator has been taken, so there are fewer tokens.
      if next.rest.length < c.rest.length then chainAfter op operand (.binary op left right) next
      else .ok (.binary op left right, next)
  else .ok (left, c)
termination_by c.rest.length

/-- Operands with the left-associative operator `op` between them. -/
def chain (op : BinaryOperator) (operand : TermReader) : TermReader := fun c => do
  let (left, c) ← operand c
  chainAfter op operand left c

/-- The comparison operator that a token is. -/
def comparison? : Token → Option BinaryOperator
  | .operator .and => none
  | .operator .or => none
  | .operator op => some op
  | _ => none

/-- One operand, or two with a comparison operator between them. -/
def comparison (operand : TermReader) : TermReader := fun c => do
  let (left, c) ← operand c
  match c.peek.bind comparison? with
  | none => .ok (left, c)
  | some op =>
    let (right, c) ← operand c.advance
    .ok (.binary op left right, c)

/-- A disjunction, or a choice whose branches `term` reads. -/
def choice (operand term : TermReader) : TermReader := fun c => do
  let (condition, c) ← chain .or (chain .and (comparison operand)) c
  if c.peek = some .question then
    let (yes, c) ← term c.advance
    let c ← c.expect .colon .choiceColon
    let (no, c) ← term c
    .ok (.choice condition yes no, c)
  else .ok (condition, c)

/-- Items with commas between them; `found` holds those before, nearest first. -/
def itemsAfter (term : TermReader) (found : List Term) (c : Cursor) :
    Except ExpressionError (List Term × Cursor) :=
  match term c with
  | .error e => .error e
  | .ok (item, next) =>
    if next.peek = some .comma then
      -- The comma has been taken, so there are fewer tokens.
      if next.advance.rest.length < c.rest.length then
        itemsAfter term (item :: found) next.advance
      else .ok ((item :: found).reverse, next.advance)
    else .ok ((item :: found).reverse, next)
termination_by c.rest.length

/-- A literal, a name, a term in parentheses or an array. -/
def primary (term : TermReader) : TermReader := fun c =>
  let c := c.advance
  match c.last.token with
  | .text value => .ok (.text value, c)
  | .number value => .ok (.number value, c)
  | .boolean value => .ok (.boolean value, c)
  | .null => .ok (.null, c)
  | .identifier name => .ok (.identifier name, c)
  | .leftParen => do
    let (inner, c) ← term c
    let c ← c.expect .rightParen .paren
    .ok (inner, c)
  | .leftBracket =>
    if c.peek = some .rightBracket then .ok (.array [], c.advance)
    else do
      let (items, c) ← itemsAfter term [] c
      let c ← c.expect .rightBracket .arrayBracket
      .ok (.array items, c)
  | token => .error ⟨c.last.location, .unexpected (some token)⟩

/-- The key of a property after a dot. A number is taken as it is written. -/
def dottedKey (c : Cursor) : Except ExpressionError (Term × Cursor) :=
  let c := c.advance
  match c.last.token with
  | .identifier name => .ok (.text name, c)
  | .number value => .ok (.text (Term.writeNumber value), c)
  | token => .error ⟨c.last.location, .noPropertyName token⟩

/-- Property accesses on `target`. -/
def propertiesAfter (term : TermReader) (target : Term) (c : Cursor) :
    Except ExpressionError (Term × Cursor) :=
  if c.peek = some .dot then
    match dottedKey c.advance with
    | .error e => .error e
    | .ok (key, next) =>
      if next.rest.length < c.rest.length then
        propertiesAfter term (.property target key) next
      else .ok (.property target key, next)
  else if c.peek = some .leftBracket then
    match term c.advance with
    | .error e => .error e
    | .ok (key, next) =>
      match next.expect .rightBracket .propertyBracket with
      | .error e => .error e
      | .ok next =>
        if next.rest.length < c.rest.length then
          propertiesAfter term (.property target key) next
        else .ok (.property target key, next)
  else .ok (target, c)
termination_by c.rest.length

/-- A primary term with property accesses. -/
def postfixes (term : TermReader) : TermReader := fun c => do
  let (target, c) ← primary term c
  propertiesAfter term target c

/-- A negation, read by `deeper` if there is a deeper level, or a primary term with property
accesses. -/
def unary (term : TermReader) (deeper : Option TermReader) : TermReader := fun c =>
  if c.peek = some .not then
    match deeper with
    | none => c.advance.fail .tooDeep
    | some deeper => do
      let (operand, c) ← deeper c.advance
      .ok (.unary .not operand, c)
  else postfixes term c

end TermReader

/-- The readers of terms and of operands at one level of nesting. -/
structure Level where
  term : TermReader
  operand : TermReader

/-- The readers at the level with `n` deeper levels. -/
def Level.ofDepth : Nat → Level
  | 0 =>
    let term : TermReader := fun c => c.fail .tooDeep
    ⟨term, TermReader.unary term none⟩
  | n + 1 =>
    let below := ofDepth n
    let term := TermReader.choice below.operand below.term
    ⟨term, TermReader.unary term (some below.operand)⟩

namespace Expression

/-- The term reader at the outermost level. -/
def term : TermReader := (Level.ofDepth maxNesting).term

/-- One option: its name and, after an equals sign, its value. -/
def readOption (c : Cursor) : Except ExpressionError ((String × Term) × Cursor) := do
  let c := c.advance
  let name ← match c.last.token with
    | .identifier name => .ok name
    | .operator .in => .ok BinaryOperator.in.symbol
    | token => .error ⟨c.last.location, .noOptionName token⟩
  if c.peek = some .assign then
    let (value, c) ← term c.advance
    .ok ((name, value), c)
  else .ok ((name, .null), c)

/-- Options with commas between them, put into `found`. -/
def optionsAfter (found : Entries Term) (c : Cursor) :
    Except ExpressionError (Entries Term × Cursor) :=
  match readOption c with
  | .error e => .error e
  | .ok ((name, value), next) =>
    let found := found.insert name value
    if next.peek = some .comma then
      if next.advance.rest.length < c.rest.length then optionsAfter found next.advance
      else .ok (found, next.advance)
    else .ok (found, next)
termination_by c.rest.length

/-- Reads an expression that takes all tokens. -/
def ofTokens (tokens : TokenList) : Except ExpressionError Expression :=
  match tokens.tokens with
  | [] => .ok (ofRoot .null)
  | first :: _ => do
    let c : Cursor := ⟨first, tokens.tokens, tokens.finish⟩
    let (root, c) ← if first.token = .atSign then .ok (.null, c) else term c
    let (options, c) ← if c.peek = some .atSign then optionsAfter [] c.advance else .ok ([], c)
    if c.peek.isSome then c.fail (.unexpected c.peek) else .ok ⟨root, options⟩

/-- Reads the text of an expression, without the braces; it begins at `here`. -/
def parse (here : Location) (body : List Char) : Except ExpressionError Expression := do
  ofTokens (← TokenList.ofChars here body)

end Expression

end Stencil
