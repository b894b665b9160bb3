import Stencil.Text.Basic
import Stencil.Text.LowerCase

/-!
# Names with a meaning in markup

Which elements have no content, which hold raw text, which attributes hold an address, and what a
directive attribute is called. All of these are compared without regard to the case of ASCII
letters.
-/

namespace Stencil.Markup

/-- Whether `name` is one of `words`, up to the case of ASCII letters. -/
def isOneOf (words : List String) (name : String) : Bool :=
  words.any (Text.eqIgnoringAsciiCase · name)

/-- Elements that have no content and no end tag. -/
def isVoidElement : String → Bool :=
  isOneOf ["area", "base", "br", "col", "embed", "hr", "img", "input", "keygen", "link", "meta",
    "param", "source", "track", "wbr"]

/-- Elements whose content is text up to their end tag. -/
def isRawTextElement : String → Bool :=
  isOneOf ["script", "style"]

/-- Attributes whose value is an address. -/
def isUriAttribute : String → Bool :=
  isOneOf ["href", "src", "action", "formaction", "cite", "poster", "background", "data",
    "codebase", "manifest"]

/-- The element that stands for its content only. -/
def isBareElement : String → Bool :=
  isOneOf ["sly"]

/-- What the name of a directive attribute begins with. -/
def directiveStart : String := "data-sly-"

/-- The number of characters of a source that a message shows. -/
def excerptLength : Nat := 40

/-- The start of a source, on one line. -/
def excerpt (source : List Char) : String :=
  let shown := source.take excerptLength ++ if excerptLength < source.length then "...".toList else []
  String.ofList (shown.flatMap fun c => if c = '\n' then ['\\', 'n'] else [c])

/-- Whether the text of a comment is meant for the author only: between `/*` and `*/`. -/
def isAuthorComment (text : String) : Bool :=
  let trimmed := Text.trim text.toList
  "/*".toList.isPrefixOf trimmed && "*/".toList.isSuffixOf trimmed

/-- A directive as an attribute names it: the directive and arguments. -/
structure DirectiveCall where
  name : String
  arguments : List String
  deriving DecidableEq, Repr, Inhabited

namespace DirectiveCall

/-- The call that `directive` stands for, the attribute's name after `directiveStart`: parts divided
by dots, the first of them in lower case. -/
def parse (directive : String) : DirectiveCall :=
  match Text.splitOn '.' directive.toList with
  | [] => ⟨"", []⟩
  | name :: arguments => ⟨Text.lowerAscii (String.ofList name), arguments.map String.ofList⟩

/-- The first argument, which names what the directive declares or sets. -/
def identifier? (call : DirectiveCall) : Option String :=
  call.arguments.head?

/-- The attribute name of the call. -/
def render (call : DirectiveCall) : String :=
  call.arguments.foldl (fun written argument => written ++ "." ++ argument)
    (directiveStart ++ call.name)

/-- The call that an attribute's name stands for, if it is that of a directive: it goes on after
`directiveStart`. -/
def ofAttributeName? (name : String) : Option DirectiveCall :=
  let start := name.toList.take directiveStart.length
  let rest := name.toList.drop directiveStart.length
  if Text.eqIgnoringAsciiCase (String.ofList start) directiveStart && !rest.isEmpty then
    some (parse (String.ofList rest))
  else none

end DirectiveCall

end Stencil.Markup
