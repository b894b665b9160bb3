import Stencil.Expression.Parser

/-!
# Expressions in a text

A text or an attribute value is a sequence of fragments: runs of literal text, and expressions
between `$` with an opening brace and a closing brace. A backslash before `$` and the brace makes
them literal.

## Main definitions

* `Fragment`: literal text or an expression
* `expressionBody?`: the characters up to the closing brace, which may stand in quotes before
* `Fragment.parse`: the fragments of a text
-/

namespace Stencil

/-- A part of a text. -/
inductive Fragment where
  | text (text : String)
  | expression (expression : Expression) (location : Location)

/-- The characters before the closing brace and those after it. Inside quotes a brace is an ordinary
character and a backslash shields the character after it. -/
def expressionBody? : Option Char → List Char → Option (List Char × List Char)
  | _, [] => none
  | some quote, c :: rest =>
    if c = '\\' then
      match rest with
      | [] => none
      | shielded :: rest =>
        (expressionBody? (some quote) rest).map fun (body, after) => (c :: shielded :: body, after)
    else
      (expressionBody? (if c = quote then none else some quote) rest).map fun (body, after) =>
        (c :: body, after)
  | none, c :: rest =>
    if c = '\x7d' then some ([], rest)
    else
      (expressionBody? (if c = '\'' || c = '"' then some c else none) rest).map
        fun (body, after) => (c :: body, after)

/-- The body, the closing brace and what comes after it are the input. -/
theorem append_of_expressionBody? {quote : Option Char} {input body after : List Char}
    (h : expressionBody? quote input = some (body, after)) : body ++ '\x7d' :: after = input := by
  fun_induction expressionBody? quote input generalizing body after with
  | case1 => simp at h
  | case2 => simp at h
  | case3 q shielded rest ih =>
    obtain ⟨⟨b, a⟩, hb, heq⟩ := Option.map_eq_some_iff.1 h
    obtain ⟨rfl, rfl⟩ := Prod.mk.injEq .. ▸ heq
    simp [ih hb]
  | case4 q c rest hc ih =>
    obtain ⟨⟨b, a⟩, hb, heq⟩ := Option.map_eq_some_iff.1 h
    obtain ⟨rfl, rfl⟩ := Prod.mk.injEq .. ▸ heq
    simp [ih hb]
  | case5 => simp_all
  | case6 c rest hc ih =>
    obtain ⟨⟨b, a⟩, hb, heq⟩ := Option.map_eq_some_iff.1 h
    obtain ⟨rfl, rfl⟩ := Prod.mk.injEq .. ▸ heq
    simp [ih hb]

namespace Fragment

/-- Literal text in front of fragments; `found` holds its characters, nearest first. -/
def flush (found : List Char) (fragments : List Fragment) : List Fragment :=
  if found.isEmpty then fragments else .text (String.ofList found.reverse) :: fragments

/-- The fragments of `input`, which begins at `here`; `found` holds the literal characters before,
nearest first. -/
def parseAfter (found : List Char) (here : Location) (input : List Char) :
    Except ExpressionError (List Fragment) :=
  match input with
  | [] => .ok (flush found [])
  | '\\' :: '$' :: '\x7b' :: rest => parseAfter ('\x7b' :: '$' :: found) (here.shift 3) rest
  | '$' :: '\x7b' :: rest =>
    match _h : expressionBody? none rest with
    | none => .error ⟨here, .unterminated⟩
    | some (body, after) =>
      match Expression.parse (here.shift 2) body with
      | .error e => .error e
      | .ok parsed =>
        match parseAfter [] (((here.shift 2).advance body).shift 1) after with
        | .error e => .error e
        | .ok fragments => .ok (flush found (.expression parsed here :: fragments))
  | c :: rest => parseAfter (c :: found) (here.next c) rest
termination_by input.length
decreasing_by
  · simp only [List.length_cons]
    omega
  · have := congrArg List.length (append_of_expressionBody? _h)
    simp only [List.length_append, List.length_cons] at this ⊢
    omega
  · simp only [List.length_cons]
    omega

/-- The fragments of a text that begins at `here`. -/
def parse (here : Location) (s : String) : Except ExpressionError (List Fragment) :=
  parseAfter [] here s.toList

/-- Whether the fragment is an expression. -/
def isExpression : Fragment → Bool
  | .expression .. => true
  | .text _ => false

/-- The expression, if the fragments are just one expression. -/
def single? : List Fragment → Option Expression
  | [.expression parsed _] => some parsed
  | _ => none

/-- The text of the fragments, if none of them is an expression. -/
def constant? : List Fragment → Option String
  | [] => some ""
  | .text literal :: rest => (constant? rest).map (literal ++ ·)
  | .expression .. :: _ => none

end Fragment

end Stencil
