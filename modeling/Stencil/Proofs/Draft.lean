import Stencil.Proofs.Script
import Stencil.Walk

/-!
# The walk as a script

The walk writes an element at hooks: some open blocks, others close them, and what lies between is
written by other parts of the walk. Here the walk is read a second time, as a script: what a
directive opens before an element and closes after it becomes a block around the element.

## Main definitions

* `Draft`: a result and a script, from the number of names made before
* `Registry.Unmarked`: the registries for which the walk can be read so
* `Markup.Node.draft`, `Markup.Template.draft`: the script of a tree
-/

namespace Stencil

/-- A part of the walk read as a script: a result and a script, from the number of names made
before. -/
def Draft (α : Type) : Type := Nat → α × Script

namespace Draft

variable {α β : Type}

/-- The result of a draft. -/
def value (d : Draft α) (n : Nat) : α := (d n).1

/-- The script of a draft. -/
def script (d : Draft α) (n : Nat) : Script := (d n).2

instance : Monad Draft where
  pure a := fun _ => (a, .done)
  bind d f := fun n =>
    let next := f (d.value n) ((d.script n).symbolsAfter n)
    (next.1, d.script n ++ next.2)

instance : LawfulMonad Draft := LawfulMonad.mk' Draft
  (fun d => funext fun n => Prod.ext rfl (Script.append_done (d.script n)))
  (fun _ _ => rfl)
  (fun d f g => funext fun n => by
    have hsymbols := Script.symbolsAfter_append (d.script n)
      (f (d.value n) ((d.script n).symbolsAfter n)).2 n
    simp only [Bind.bind, value, script] at hsymbols ⊢
    rw [hsymbols, Script.append_assoc])

@[simp] theorem value_pure (a : α) (n : Nat) : (pure a : Draft α).value n = a := rfl

@[simp] theorem script_pure (a : α) (n : Nat) : (pure a : Draft α).script n = .done := rfl

@[simp] theorem value_bind (d : Draft α) (f : α → Draft β) (n : Nat) :
    (d >>= f).value n = (f (d.value n)).value ((d.script n).symbolsAfter n) := rfl

@[simp] theorem script_bind (d : Draft α) (f : α → Draft β) (n : Nat) :
    (d >>= f).script n = d.script n ++ (f (d.value n)).script ((d.script n).symbolsAfter n) := rfl

@[simp] theorem value_map (f : α → β) (d : Draft α) (n : Nat) :
    (f <$> d).value n = f (d.value n) := rfl

@[simp] theorem script_map (f : α → β) (d : Draft α) (n : Nat) :
    (f <$> d).script n = d.script n := Script.append_done _

/-- The draft of a script. -/
def write (k : Script) : Draft Unit := fun _ => ((), k)

/-- The draft of one statement. -/
def say (x : Statement) : Draft Unit := write (.statement x .done)

/-- A new name. -/
def fresh : Draft String := fun n => (Session.symbol n, .statement .generate .done)

/-- A block around a draft. -/
def within (header : Header) (body : Draft Unit) : Draft Unit := fun n =>
  ((), .block header (body.script n) .done)

@[simp] theorem script_write (k : Script) (n : Nat) : (write k).script n = k := rfl

@[simp] theorem script_say (x : Statement) (n : Nat) : (say x).script n = .statement x .done := rfl

@[simp] theorem value_fresh (n : Nat) : fresh.value n = Session.symbol n := rfl

@[simp] theorem script_fresh (n : Nat) : fresh.script n = .statement .generate .done := rfl

@[simp] theorem script_within (header : Header) (body : Draft Unit) (n : Nat) :
    (within header body).script n = .block header (body.script n) .done := rfl

/-- A script, then blocks around a draft, the first of them outermost. -/
def around (opening : Script) (headers : List Header) (body : Draft Unit) : Draft Unit := do
  write opening
  headers.foldr within body

end Draft

/-! ### Text with expressions -/

namespace Written

/-- The expression that the filters leave. -/
def filtered (filters : Pipeline) (placement? : Option Placement) (source : Written) : Expression :=
  filters.apply (Session.withContext placement? source.expression)

/-- The statement by which an expression is transformed. -/
def check (filters : Pipeline) (placement? : Option Placement) (source : Written) : Statement :=
  .check (source.filtered filters placement?).root source.location

/-- The script by which an expression is transformed; without a placement it is written in the
content of an element. -/
def checkIn (filters : Pipeline) : Option Placement → Written → Script
  | some placement, source => .statement (source.check filters (some placement)) .done
  | none, source =>
    .statement (.checkContext source.expression source.location)
      (.statement (source.check filters (some .text)) .done)

end Written

variable (filters : Pipeline)

/-- The script of a fragment of a text. -/
def Fragment.draft (placement? : Option Placement) : Fragment → Draft Unit
  | .text literal => .say (.outText literal)
  | .expression e here => do
    let source : Written := ⟨e, here⟩
    .write (source.checkIn filters placement?)
    let name ← .fresh
    .within (.binding .temporary name (source.filtered filters (placement?.getD .text)).root here)
      (.say (.outVariable name))

/-- The script of an expression that cannot be read. -/
def draftMalformed (error : ExpressionError) : Draft Unit :=
  .say (.report .error error.location (.malformed error.fault))

/-- The script of a text with expressions. -/
def draftInterpolated (text : String) (here : Location) (placement? : Option Placement) :
    Draft Unit :=
  match Fragment.parse here text with
  | .ok fragments => fragments.forM (Fragment.draft filters placement?)
  | .error error => do
    draftMalformed error
    .say (.outText text)

namespace Markup

/-! ### Attributes -/

/-- The script of an attribute whose whole value is one expression. -/
def draftDynamicAttribute (name : String) (source : Written) (quote : String) : Draft Unit := do
  let placement := Placement.ofAttribute name
  .say (source.check filters (some placement))
  let held ← .fresh
  .within (.binding .temporary held (source.filtered filters (some placement)).root source.location)
    (.within (.conditional held true) do
      .say (.outText (" " ++ name ++ "=" ++ quote))
      .say (.outVariable held)
      .say (.outText quote))

/-- The script of an attribute whose value is a text. -/
def draftLiteralAttribute (name text : String) (here : Location) (quote : String) : Draft Unit :=
  match Fragment.parse here text with
  | .error error => do
    draftMalformed error
    .say (.outText (" " ++ name ++ "=" ++ quote ++ text ++ quote))
  | .ok [.expression e place] => draftDynamicAttribute filters name ⟨e, place⟩ quote
  | .ok fragments => do
    .say (.outText (" " ++ name ++ "=" ++ quote))
    fragments.forM (Fragment.draft filters (some (.ofAttribute name)))
    .say (.outText quote)

/-- The script of an attribute. -/
def Attribute.draft (attr : Attribute) : Draft Unit :=
  let quote := String.singleton (attr.quote.getD '"')
  match attr.value with
  | .absent => .say (.outText (" " ++ attr.name))
  | .directive _ e => draftDynamicAttribute filters attr.name ⟨e, attr.valueLocation⟩ quote
  | .literal text => draftLiteralAttribute filters attr.name text attr.valueLocation quote

end Markup

/-! ### Directives -/

namespace LoopNames

/-- The blocks of a loop: the loop itself, and inside it the binding of its status. -/
def headers (names : LoopNames) (here : Location) : List Header :=
  [.loop names.list names.item names.index here,
    .binding .bound names.status
      (.call "listStatus" [.identifier names.index, .identifier names.list]) here]

end LoopNames

namespace Invocation

/-- The block that binds what the filters leave of an expression. -/
def bindingOf (placement? : Option Placement) (name : String) (source : Written) : Header :=
  .binding .bound name (source.filtered filters placement?).root source.location

/-- What an invocation writes before the blocks around its element. -/
def elementOpening : Invocation → Script
  | .use name source =>
    let value := source.filtered filters none
    .statement (source.check filters none)
      (.statement (.bindGlobal name (.call "use" [value.root, .map value.options]) source.location)
        .done)
  | .set name source | .test name true source =>
    .statement (source.check filters none)
      (.statement (.bindGlobal name (source.filtered filters none).root source.location) .done)
  | .test _ false source | .list _ source | .repeated _ source | .unwrap (some (_, source)) =>
    .statement (source.check filters none) .done
  | .element _ source => .statement (source.check filters (some .elementName)) .done
  | _ => .done

/-- The blocks of an invocation around its element, the tag of which is `tag`. -/
def elementHeaders (tag : String) : Invocation → List Header
  | .test name true _ => [.conditional name true]
  | .test name false source => [bindingOf filters none name source, .conditional name true]
  | .list names source => [bindingOf filters none names.list source, .conditional names.list true]
  | .repeated names source =>
    bindingOf filters none names.list source :: names.headers source.location
  | .template name parameters here => [.procedure name parameters here]
  | .element name source =>
    let value := source.filtered filters (some .elementName)
    [.binding .bound name (.choice value.root value.root (.text tag)) source.location]
  | .unwrap (some (name, source)) => [bindingOf filters none name source]
  | _ => []

/-- What an invocation writes after the attributes. -/
def attributeScript : Invocation → Script
  | .attr (some target) name source =>
    let placement := Placement.ofAttribute target
    .statement (source.check filters (some placement))
      (.block (bindingOf filters (some placement) name source)
        (.block (.conditional name true)
          (.statement (.outText (" " ++ target ++ "=\""))
            (.statement (.outVariable name) (.statement (.outText "\"") .done)))
          .done)
        .done)
  | .attr none name source =>
    .statement (source.check filters none)
      (.block
        (.binding .bound name (.call "attributeMap" [(source.filtered filters none).root])
          source.location)
        (.statement (.outVariable name) .done) .done)
  | _ => .done

/-- What an invocation writes before the blocks around the content. -/
def contentOpening : Invocation → Script
  | .call procedure arguments source =>
    .statement (source.check filters none)
      (.block (bindingOf filters none procedure source)
        (.block
          (.binding .bound arguments (.map (source.filtered filters none).options) source.location)
          (.statement (.callProcedure procedure arguments) .done) .done)
        .done)
  | .insertion function name source =>
    let value := source.filtered filters none
    .statement (source.check filters none)
      (.block
        (.binding .bound name (.call function [value.root, .map value.options]) source.location)
        (.statement (.outVariable name) .done) .done)
  | .text name source =>
    source.checkIn filters none ++
      .block (bindingOf filters (some .text) name source) (.statement (.outVariable name) .done)
        .done
  | _ => .done

/-- The blocks of an invocation around the content. -/
def contentHeaders : Invocation → List Header
  | .list names source => names.headers source.location
  | _ => []

/-- Whether an invocation leaves marks. -/
def isProbe : Invocation → Bool
  | .probe _ => true
  | _ => false

/-- The blocks of all invocations around the element. -/
def aroundElement (tag : String) (invocations : List Invocation) (body : Draft Unit) : Draft Unit :=
  invocations.foldr
    (fun invocation =>
      Draft.around (invocation.elementOpening filters) (invocation.elementHeaders filters tag))
    body

/-- The blocks of all invocations around the content. -/
def aroundContent (invocations : List Invocation) (body : Draft Unit) : Draft Unit :=
  invocations.foldr
    (fun invocation => Draft.around (invocation.contentOpening filters) invocation.contentHeaders)
    body

end Invocation

namespace Directive

/-- Whether a directive leaves marks. -/
def isProbe : Directive → Bool
  | .probe .. => true
  | _ => false

/-- The identifier of a call, with a report if there is none. -/
def draftIdentifier (call : Markup.DirectiveCall) (here : Location) : Draft (Option String) :=
  match call.identifier? with
  | some name => return some name
  | none => do
    .say (.report .error here (.needsIdentifier call))
    return none

/-- The variables of a loop over items named by the call. -/
def draftLoopNames (call : Markup.DirectiveCall) : Draft LoopNames := do
  let item := call.identifier?.getD "item"
  let list ← .fresh
  let index ← .fresh
  return { list, item, index, status := item ++ "List" }

/-- The invocation of a template. -/
def draftTemplate (call : Markup.DirectiveCall) (source : Written) : Draft Invocation := do
  match ← draftIdentifier call source.location with
  | none => return .inert
  | some name =>
    if source.expression.root.isNull then pure ()
    else .say (.report .warning source.location (.ignoresExpression call))
    .say (.declareGlobal name source.location)
    return .template name source.expression.options.names source.location

/-- The invocation of a directive, with the names and reports that are made for it. -/
def draft (directive : Directive) (call : Markup.DirectiveCall) (source : Written) :
    Draft Invocation :=
  match directive with
  | .use => return .use (call.identifier?.getD "useBean") source
  | .set => do
    match ← draftIdentifier call source.location with
    | none => return .inert
    | some name => return .set name source
  | .template => draftTemplate call source
  | .test => do
    match call.identifier? with
    | some name => return .test name true source
    | none => return .test (← .fresh) false source
  | .list => return .list (← draftLoopNames call) source
  | .repeated => return .repeated (← draftLoopNames call) source
  | .call => do
    let procedure ← .fresh
    let arguments ← .fresh
    return .call procedure arguments source
  | .insertion => return .insertion "include" (← .fresh) source
  | .resource => return .insertion "resource" (← .fresh) source
  | .element => return .element (← .fresh) source
  | .attr => return .attr call.identifier? (← .fresh) source
  | .text => return .text (← .fresh) source
  | .unwrap => do
    if source.expression.root.isNull then return .unwrap none
    else return .unwrap (some (← .fresh, source))
  | .probe .. => return .inert

end Directive

/-- A registry in which no directive leaves marks. -/
def Registry.Unmarked (registry : Registry) : Prop :=
  ∀ name directive, registry.find? name = some directive → directive.isProbe = false

namespace Markup

/-- The invocations of the directives among attributes, with their priorities. -/
def draftInvocations (registry : Registry) : List Attribute → Draft (List (Invocation × Int))
  | [] => return []
  | attr :: rest =>
    match attr.value with
    | .directive call e =>
      match registry.find? call.name with
      | some directive => do
        let invocation ← directive.draft call ⟨e, attr.location⟩
        let others ← draftInvocations registry rest
        return (invocation, directive.priority) :: others
      | none => do
        .say (.report .error attr.location (.unknownDirective call))
        draftInvocations registry rest
    | _ => draftInvocations registry rest

/-! ### Elements -/

/-- The script of the name of a tag. -/
def draftTagName (name : String) (effect : Effect) : Draft Unit :=
  match effect.tagVariable with
  | some held => .say (.outVariable held)
  | none => .say (.outText name)

/-- The blocks around a tag that is left out under a condition. -/
def skipHeaders : TagSkip → List Header
  | .when name => [.conditional name false]
  | _ => []

/-- The script of a start tag. -/
def draftStartTag (registry : Registry) (tag : Tag) (invocations : List Invocation)
    (effect : Effect) (skip : TagSkip) : Draft Unit :=
  Draft.around .done (skipHeaders skip) do
    .say (.outText "<")
    draftTagName tag.name effect
    (tag.attributes.filter fun attr => isWritten registry attr && !effect.overrides attr.name).forM
      (Attribute.draft filters)
    invocations.forM fun invocation => .write (invocation.attributeScript filters)
    .say (.outText (if tag.selfClosing then "/>" else ">"))

/-- The script of an end tag. -/
def draftEndTag (tag : Tag) (effect : Effect) (skip : TagSkip) : Draft Unit :=
  Draft.around .done (skipHeaders skip) do
    .say (.outText "</")
    draftTagName tag.name effect
    .say (.outText ">")

/-- The script of an element inside the blocks around it. -/
def draftTags (registry : Registry) (tag : Tag) (invocations : List Invocation)
    (content : Draft Unit) : Draft Unit := do
  let effect := Effect.all (invocations.map Invocation.effect)
  let skip := if isBareElement tag.name then .always else effect.skip
  (if skip ≠ .always then draftStartTag filters registry tag invocations effect skip else pure ())
  Invocation.aroundContent filters invocations (if effect.replaces then pure () else content)
  (if skip ≠ .always ∧ tag.hasEndTag ∧ !tag.selfClosing then draftEndTag tag effect skip
    else pure ())

/-- The script of an element around its content. -/
def draftElement (registry : Registry) (tag : Tag) (content : Draft Unit) : Draft Unit := do
  let found ← draftInvocations registry tag.attributes
  let invocations := (Priority.sort (·.2) found).map (·.1)
  Draft.around .done (if isRawTextElement tag.name then [.rawText] else []) <|
    Invocation.aroundElement filters tag.name invocations <|
      draftTags filters registry tag invocations content

/-- The script of a comment. -/
def draftComment (text : String) (here : Location) : Draft Unit :=
  if isAuthorComment text then pure ()
  else do
    .say (.outText "<!--")
    draftInterpolated filters text (here.shift 4) (some .comment)
    .say (.outText "-->")

mutual

/-- The script of a node with all below it. -/
def Node.draft (registry : Registry) : Node → Draft Unit
  | .text text here => draftInterpolated filters text here none
  | .comment text here => draftComment filters text here
  | .element tag children => draftElement filters registry tag (draftAll registry children)

/-- The script of nodes one after the other. -/
def draftAll (registry : Registry) : List Node → Draft Unit
  | [] => pure ()
  | node :: rest => do
    node.draft registry
    draftAll registry rest

end

/-- The script of a template. -/
def Template.draft (registry : Registry) (template : Template) : Draft Unit :=
  draftAll filters registry template.children

end Markup

end Stencil
