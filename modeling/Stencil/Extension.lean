import Stencil.Failure
import Stencil.Json.Coercion

/-!
# Runtime functions

The functions that filters put into expressions, as far as the library has them: `format` and `join`.

## Main definitions

* `Extension.substitute`: parameters in the place of numbers between braces
* `Extension.call`: the call of a function by its name
-/

namespace Stencil.Extension

/-- A number between braces at the start of a text: the whole of it, its digits, and what follows.
Blanks may stand around the number. -/
def placeholder? : List Char → Option (List Char × List Char × List Char)
  | '\x7b' :: rest =>
    let before := rest.takeWhile Text.isBlank
    let rest := rest.dropWhile Text.isBlank
    let digits := rest.takeWhile Text.isDecimalDigit
    let rest := rest.dropWhile Text.isDecimalDigit
    let after := rest.takeWhile Text.isBlank
    match rest.dropWhile Text.isBlank with
    | '\x7d' :: rest =>
      if digits.isEmpty then none
      else some ('\x7b' :: before ++ digits ++ after ++ ['\x7d'], digits, rest)
    | _ => none
  | _ => none

/-- The text that is left of a placeholder is shorter than the text it begins. -/
theorem length_of_placeholder? {input whole digits rest : List Char}
    (h : placeholder? input = some (whole, digits, rest)) : rest.length < input.length := by
  unfold placeholder? at h
  split at h
  · rename_i tail
    dsimp only at h
    split at h
    · rename_i left found
      split at h
      · contradiction
      · simp only [Option.some.injEq, Prod.mk.injEq] at h
        obtain ⟨-, -, rfl⟩ := h
        have shorter (p : Char → Bool) (cs : List Char) :
            (cs.dropWhile p).length ≤ cs.length :=
          (List.dropWhile_sublist p).length_le
        have h₁ := shorter Text.isBlank tail
        have h₂ := shorter Text.isDecimalDigit (tail.dropWhile Text.isBlank)
        have h₃ := shorter Text.isBlank
          ((tail.dropWhile Text.isBlank).dropWhile Text.isDecimalDigit)
        simp only [found, List.length_cons] at h₃ ⊢
        omega
    · contradiction
  · contradiction

/-- The parameter that digits give the number of, counted from zero: the digits are ASCII ones, and
the number fits in sixty-four bits. -/
def parameter? (parameters : List String) (digits : List Char) : Option String :=
  if digits.all Char.isDigit && decimalValue digits < Nat.pow 2 64 then
    parameters[decimalValue digits]?
  else none

/-- The characters of a pattern with parameters in the place of placeholders; a placeholder without a
parameter stays. -/
def substituteChars (parameters : List String) (pattern : List Char) : List Char :=
  match _h : placeholder? pattern with
  | some (whole, digits, rest) =>
    (match parameter? parameters digits with
      | some parameter => parameter.toList
      | none => whole) ++ substituteChars parameters rest
  | none =>
    match pattern with
    | [] => []
    | c :: rest => c :: substituteChars parameters rest
termination_by pattern.length
decreasing_by
  · exact length_of_placeholder? _h
  · simp

/-- A pattern with parameters in the place of placeholders. -/
def substitute (pattern : String) (parameters : List String) : String :=
  String.ofList (substituteChars parameters pattern.toList)

/-- The functions there are, each with two arguments. -/
def function? : String → Option (Json → Json → Json)
  | "format" => some fun pattern parameters =>
    .text (substitute pattern.toText (parameters.toItems.map Json.toText))
  | "join" => some fun items separator =>
    .text (separator.toText.intercalate (items.toItems.map Json.toText))
  | _ => none

/-- The value of a function. -/
def call (name : String) (arguments : List Json) : Except Failure Json :=
  match function? name with
  | none => .error (.call name .unknown)
  | some function =>
    match arguments with
    | [first, second] => .ok (function first second)
    | _ => .error (.call name (.arity 2 arguments.length))

end Stencil.Extension
