import Stencil.Markup.Fault

/-!
# Scanning markup

A scanner takes markup one character at a time and reports events. All it knows about an unfinished
construct is in its state, so the events do not depend on how the text is cut into pieces.

## Main definitions

* `Event`: a part of a markup text
* `Mode`: what the scanner is in the middle of
* `Scanner`: the state between two characters
* `Scanner.step`, `Scanner.feed`, `Scanner.finish`: taking a character, several, and the end
-/

namespace Stencil.Markup

/-! ### Events -/

/-- An attribute as it is written in a start tag. -/
structure WrittenAttribute where
  name : String
  /-- Missing when there is no equals sign. -/
  value : Option String
  /-- The quote around the value. -/
  quote : Option Char
  location : Location
  deriving DecidableEq, Repr

/-- A start tag. -/
structure StartTag where
  name : String
  attributes : List WrittenAttribute
  selfClosing : Bool
  location : Location
  deriving DecidableEq, Repr

/-- A part of a markup text. -/
inductive Event where
  | text (text : String) (location : Location)
  | comment (text : String) (location : Location)
  | startTag (tag : StartTag)
  | endTag (name : String) (location : Location)
  | finish (location : Location)
  deriving DecidableEq, Repr

/-! ### The state of a scanner -/

/-- A start tag whose name is complete; the attributes are nearest first. -/
structure OpenTag where
  name : String
  attributes : List WrittenAttribute
  deriving DecidableEq, Repr

/-- An attribute whose name has begun; the characters are nearest first. -/
structure OpenAttribute where
  name : List Char
  location : Location
  deriving DecidableEq, Repr

/-- What a scanner is in the middle of. Characters of names, comments and values are nearest
first. -/
inductive Mode where
  /-- Between constructs. -/
  | text
  /-- After `<`. -/
  | tagOpen
  /-- After `<!`, or after `<!-` if a dash was seen. -/
  | declarationOpen (dash : Bool)
  /-- In a declaration or a processing instruction. -/
  | declaration
  /-- In a comment. -/
  | comment (body : List Char)
  /-- In the name of a start tag. -/
  | tagName (name : List Char)
  /-- Where an attribute may begin. -/
  | beforeAttribute (tag : OpenTag)
  /-- In the name of an attribute. -/
  | attributeName (tag : OpenTag) (attr : OpenAttribute)
  /-- After blanks behind the name of an attribute. -/
  | afterAttributeName (tag : OpenTag) (attr : OpenAttribute)
  /-- After an equals sign. -/
  | beforeValue (tag : OpenTag) (attr : OpenAttribute)
  /-- In a value between quotes. -/
  | quotedValue (tag : OpenTag) (attr : OpenAttribute) (quote : Char) (value : List Char)
  /-- In a value without quotes. -/
  | bareValue (tag : OpenTag) (attr : OpenAttribute) (value : List Char)
  /-- After a slash in a start tag. -/
  | selfClosing (tag : OpenTag)
  /-- After `</`. -/
  | endTagOpen
  /-- In the name of an end tag. -/
  | endTagName (name : List Char)
  /-- After the name of an end tag. -/
  | afterEndTagName (name : String)
  /-- In the content of the raw text element `name`, which is in lower case. -/
  | rawText (name : String)
  deriving DecidableEq, Repr

/-- The state between two characters. -/
structure Scanner where
  mode : Mode
  /-- Where the next character stands. -/
  location : Location
  /-- Characters of text not yet reported, nearest first. -/
  text : List Char
  /-- Where that text begins. -/
  textStart : Location
  /-- The source of the construct being read, nearest first. -/
  markup : List Char
  /-- Where that construct begins. -/
  markupStart : Location
  deriving DecidableEq, Repr

/-- What a step of a scanner gives: the next state and the events it reports. -/
abbrev Step := Except MarkupError (Scanner × List Event)

/-- Whether a character can continue the name of a tag. -/
def continuesTagName (c : Char) : Bool :=
  Text.isAlphanumeric c || c = '-' || c = ':' || c = '_' || c = '.'

/-- The attribute with its value. -/
def OpenAttribute.close (attr : OpenAttribute) (value : Option (List Char))
    (quote : Option Char) : WrittenAttribute :=
  { name := String.ofList attr.name.reverse
    value := value.map fun cs => String.ofList cs.reverse
    quote
    location := attr.location }

/-- The tag with one more attribute. -/
def OpenTag.add (tag : OpenTag) (attr : WrittenAttribute) : OpenTag :=
  { tag with attributes := attr :: tag.attributes }

namespace Scanner

/-- The state before the first character of a text. -/
def start : Scanner := ⟨.text, .start, [], .start, [], .start⟩

/-- The state with one more character of text. -/
def pushText (s : Scanner) (c : Char) : Scanner :=
  { s with text := c :: s.text, textStart := if s.text.isEmpty then s.location else s.textStart }

/-- The state with one more character of the construct being read. -/
def pushMarkup (s : Scanner) (c : Char) : Scanner :=
  { s with markup := c :: s.markup }

/-- The state in which the construct being read has turned out to be text. -/
def markupToText (s : Scanner) : Scanner :=
  { s with
    mode := .text
    text := s.markup ++ s.text
    textStart := if s.text.isEmpty then s.markupStart else s.textStart
    markup := [] }

/-- The event of the text not yet reported, if there is any. -/
def textEvents (s : Scanner) : List Event :=
  if s.text.isEmpty then [] else [.text (String.ofList s.text.reverse) s.textStart]

/-- The failure of the construct being read. -/
def fail (s : Scanner) (fault : MarkupFault) : MarkupError :=
  ⟨s.markupStart, excerpt s.markup.reverse, fault⟩

/-- The state in another mode. -/
def into (s : Scanner) (mode : Mode) : Step :=
  .ok ({ s with mode }, [])

/-- Reports text, then `event`, and goes on in `mode`. -/
def report (s : Scanner) (mode : Mode) (event : Event) : Step :=
  .ok ({ s with mode, text := [] }, s.textEvents ++ [event])

/-- Reports the start tag that has been read. -/
def reportStartTag (s : Scanner) (tag : OpenTag) (selfClosing : Bool) : Step :=
  let mode :=
    if !selfClosing && isRawTextElement tag.name then .rawText (Text.lowerAscii tag.name) else .text
  s.report mode (.startTag ⟨tag.name, tag.attributes.reverse, selfClosing, s.markupStart⟩)

/-- Reports the end tag that has been read. -/
def reportEndTag (s : Scanner) (name : String) : Step :=
  s.report .text (.endTag name s.markupStart)

/-- A character between constructs. -/
def stepText (s : Scanner) (c : Char) : Step :=
  if c = '<' then
    .ok ({ s with mode := .tagOpen, markup := [c], markupStart := s.location }, [])
  else .ok ({ s.pushText c with mode := .text }, [])

/-- A character after `<`. What can begin no construct is text, together with the `<`. -/
def stepTagOpen (s : Scanner) (c : Char) : Step :=
  if c = '!' then (s.pushMarkup c).into (.declarationOpen false)
  else if c = '/' then (s.pushMarkup c).into .endTagOpen
  else if c = '?' then (s.pushMarkup c).into .declaration
  else if Text.isAlphabetic c then (s.pushMarkup c).into (.tagName [c])
  else s.markupToText.stepText c

/-- A character after `<!` or `<!-`. -/
def stepDeclarationOpen (s : Scanner) (dash : Bool) (c : Char) : Step :=
  let s := s.pushMarkup c
  if c = '-' then
    -- Text before a comment is reported as soon as the comment begins.
    if dash then .ok ({ s with mode := .comment [], text := [] }, s.textEvents)
    else s.into (.declarationOpen true)
  else if c = '>' then .ok (s.markupToText, [])
  else s.into .declaration

/-- A character in a declaration, which becomes text when it ends. -/
def stepDeclaration (s : Scanner) (c : Char) : Step :=
  let s := s.pushMarkup c
  if c = '>' then .ok (s.markupToText, []) else s.into .declaration

/-- A character in a comment. -/
def stepComment (s : Scanner) (body : List Char) (c : Char) : Step :=
  let s := s.pushMarkup c
  match c, body with
  | '>', '-' :: '-' :: text =>
    .ok ({ s with mode := .text }, [.comment (String.ofList text.reverse) s.markupStart])
  | c, body => s.into (.comment (c :: body))

/-- A character in the name of a start tag. -/
def stepTagName (s : Scanner) (name : List Char) (c : Char) : Step :=
  let s := s.pushMarkup c
  let tag : OpenTag := ⟨String.ofList name.reverse, []⟩
  if continuesTagName c then s.into (.tagName (c :: name))
  else if Text.isBlank c then s.into (.beforeAttribute tag)
  else if c = '/' then s.into (.selfClosing tag)
  else if c = '>' then s.reportStartTag tag false
  else .error (s.fail (.badTagName c))

/-- A character where an attribute may begin. -/
def stepBeforeAttribute (s : Scanner) (tag : OpenTag) (c : Char) : Step :=
  let s := s.pushMarkup c
  if Text.isBlank c then s.into (.beforeAttribute tag)
  else if c = '>' then s.reportStartTag tag false
  else if c = '/' then s.into (.selfClosing tag)
  else if c = '"' || c = '\'' || c = '<' || c = '=' then .error (s.fail (.strayInTag c))
  else s.into (.attributeName tag ⟨[c], s.location⟩)

/-- A character in the name of an attribute. -/
def stepAttributeName (s : Scanner) (tag : OpenTag) (attr : OpenAttribute) (c : Char) : Step :=
  let s := s.pushMarkup c
  if Text.isBlank c then s.into (.afterAttributeName tag attr)
  else if c = '=' then s.into (.beforeValue tag attr)
  else if c = '>' then s.reportStartTag (tag.add (attr.close none none)) false
  else if c = '/' then s.into (.selfClosing (tag.add (attr.close none none)))
  else if c = '"' || c = '\'' || c = '<' then .error (s.fail (.strayInAttributeName c))
  else s.into (.attributeName tag { attr with name := c :: attr.name })

/-- A character after blanks behind the name of an attribute. -/
def stepAfterAttributeName (s : Scanner) (tag : OpenTag) (attr : OpenAttribute) (c : Char) :
    Step :=
  let s := s.pushMarkup c
  if Text.isBlank c then s.into (.afterAttributeName tag attr)
  else if c = '=' then s.into (.beforeValue tag attr)
  else if c = '>' then s.reportStartTag (tag.add (attr.close none none)) false
  else if c = '/' then s.into (.selfClosing (tag.add (attr.close none none)))
  else if c = '"' || c = '\'' || c = '<' then .error (s.fail (.strayInTag c))
  else s.into (.attributeName (tag.add (attr.close none none)) ⟨[c], s.location⟩)

/-- A character after an equals sign. -/
def stepBeforeValue (s : Scanner) (tag : OpenTag) (attr : OpenAttribute) (c : Char) : Step :=
  let s := s.pushMarkup c
  if Text.isBlank c then s.into (.beforeValue tag attr)
  else if c = '"' || c = '\'' then s.into (.quotedValue tag attr c [])
  else if c = '>' then s.reportStartTag (tag.add (attr.close (some []) none)) false
  else s.into (.bareValue tag attr [c])

/-- A character in a value between quotes. -/
def stepQuotedValue (s : Scanner) (tag : OpenTag) (attr : OpenAttribute) (quote : Char)
    (value : List Char) (c : Char) : Step :=
  let s := s.pushMarkup c
  if c = quote then s.into (.beforeAttribute (tag.add (attr.close (some value) (some quote))))
  else s.into (.quotedValue tag attr quote (c :: value))

/-- A character in a value without quotes. -/
def stepBareValue (s : Scanner) (tag : OpenTag) (attr : OpenAttribute) (value : List Char)
    (c : Char) : Step :=
  let s := s.pushMarkup c
  if Text.isBlank c then s.into (.beforeAttribute (tag.add (attr.close (some value) none)))
  else if c = '>' then s.reportStartTag (tag.add (attr.close (some value) none)) false
  else s.into (.bareValue tag attr (c :: value))

/-- A character after a slash in a start tag. -/
def stepSelfClosing (s : Scanner) (tag : OpenTag) (c : Char) : Step :=
  if c = '>' then (s.pushMarkup c).reportStartTag tag true else s.stepBeforeAttribute tag c

/-- A character after `</`. -/
def stepEndTagOpen (s : Scanner) (c : Char) : Step :=
  let s := s.pushMarkup c
  if Text.isAlphabetic c then s.into (.endTagName [c]) else .error (s.fail .malformedEndTag)

/-- A character in the name of an end tag. -/
def stepEndTagName (s : Scanner) (name : List Char) (c : Char) : Step :=
  let s := s.pushMarkup c
  if continuesTagName c then s.into (.endTagName (c :: name))
  else if Text.isBlank c then s.into (.afterEndTagName (String.ofList name.reverse))
  else if c = '>' then s.reportEndTag (String.ofList name.reverse)
  else .error (s.fail (.badEndTagName c))

/-- A character after the name of an end tag. -/
def stepAfterEndTagName (s : Scanner) (name : String) (c : Char) : Step :=
  let s := s.pushMarkup c
  if Text.isBlank c then s.into (.afterEndTagName name)
  else if c = '>' then s.reportEndTag name
  else .error (s.fail .malformedEndTag)

/-- Whether text, nearest character first, ends in `</` and `name`, up to the case of ASCII
letters. -/
def endsInEndTag (name : String) (text : List Char) : Bool :=
  (name.toList.reverse ++ ['/', '<']).isPrefixOf (text.map Char.toLower)

/-- A character in the content of a raw text element. The content ends where `</` and the name are
followed by `>`, a slash or a blank. -/
def stepRawText (s : Scanner) (name : String) (c : Char) : Step :=
  if (c = '>' || c = '/' || Text.isBlank c) && endsInEndTag name (s.text.take (name.length + 2)) then
    -- `</` and the name were taken for text, and become the start of the end tag.
    let width := name.length + 2
    let written := String.ofList (s.text.take name.length).reverse
    let s := { s with
      text := s.text.drop width
      markup := c :: s.text.take width
      markupStart := ⟨s.location.line, s.location.column - width⟩ }
    if c = '>' then s.reportEndTag written else s.into (.afterEndTagName written)
  else .ok (s.pushText c, [])

/-- Takes a character; the location stays. -/
def stepInMode (s : Scanner) (c : Char) : Step :=
  match s.mode with
  | .text => s.stepText c
  | .tagOpen => s.stepTagOpen c
  | .declarationOpen dash => s.stepDeclarationOpen dash c
  | .declaration => s.stepDeclaration c
  | .comment body => s.stepComment body c
  | .tagName name => s.stepTagName name c
  | .beforeAttribute tag => s.stepBeforeAttribute tag c
  | .attributeName tag attr => s.stepAttributeName tag attr c
  | .afterAttributeName tag attr => s.stepAfterAttributeName tag attr c
  | .beforeValue tag attr => s.stepBeforeValue tag attr c
  | .quotedValue tag attr quote value => s.stepQuotedValue tag attr quote value c
  | .bareValue tag attr value => s.stepBareValue tag attr value c
  | .selfClosing tag => s.stepSelfClosing tag c
  | .endTagOpen => s.stepEndTagOpen c
  | .endTagName name => s.stepEndTagName name c
  | .afterEndTagName name => s.stepAfterEndTagName name c
  | .rawText name => s.stepRawText name c

/-- Takes a character. -/
def step (s : Scanner) (c : Char) : Step := do
  let (next, events) ← s.stepInMode c
  .ok ({ next with location := s.location.next c }, events)

/-- Takes characters in turn. The events before a failure are kept. -/
def feed (s : Scanner) : List Char → List Event × Except MarkupError Scanner
  | [] => ([], .ok s)
  | c :: rest =>
    match s.step c with
    | .error e => ([], .error e)
    | .ok (next, events) =>
      let (more, result) := next.feed rest
      (events ++ more, result)

/-- Takes the end of the text. -/
def finish (s : Scanner) : Except MarkupError (List Event) :=
  match s.mode with
  | .text => .ok (s.textEvents ++ [.finish s.location])
  | .rawText _ => .ok (s.textEvents ++ [.finish s.location])
  | .tagOpen => .ok (s.markupToText.textEvents ++ [.finish s.location])
  | .comment _ => .error (s.fail .unterminatedComment)
  | .declarationOpen _ => .error (s.fail .unterminatedDeclaration)
  | .declaration => .error (s.fail .unterminatedDeclaration)
  | _ => .error (s.fail .unterminatedTag)

end Scanner

end Stencil.Markup
