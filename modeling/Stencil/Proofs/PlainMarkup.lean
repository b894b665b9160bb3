import Stencil.Proofs.Compilation
import Stencil.Proofs.ReadBack

/-!
# Plain markup is compiled to itself

Canonical markup holds no expression and no directive, so the walk over it writes texts only, which
make up its written form. The stream joins them, and the compilation is a single command that writes
what was read.

## Main definitions

* `Script.Says`, `Draft.Says`: scripts and drafts that write texts only

## Main results

* `Node.says_draft`: the walk over a canonical node writes the written form of the node
* `Compiler.compile_renderAll`: the compilation of canonical markup
-/

namespace Stencil

open Markup

/-! ### Scripts that write texts only -/

/-- A script that does nothing but write texts, which make up the characters. -/
inductive Script.Says : Script → List Char → Prop
  | done : Says .done []
  | text (text : String) {next : Script} {cs : List Char} (hnext : Says next cs) :
    Says (.statement (.outText text) next) (text.toList ++ cs)
  | raw {body next : Script} {inside cs : List Char} (hbody : Says body inside)
    (hnext : Says next cs) : Says (.block .rawText body next) (inside ++ cs)

/-- The stream of a text, which is empty if the text is. -/
def Stream.ofText (cs : List Char) : Stream :=
  if cs.isEmpty then .empty else ⟨[.outText (String.ofList cs)]⟩

theorem Stream.commands_ofText (cs : List Char) :
    (ofText cs).commands = if cs.isEmpty then [] else [.outText (String.ofList cs)] := by
  rw [ofText]
  split <;> rfl

theorem Stream.write_ofText (cs : List Char) (text : String) :
    (ofText cs).write (.outText text) = ofText (cs ++ text.toList) := by
  by_cases htext : text.isEmpty
  · obtain rfl : text = "" := by simpa using htext
    simp [write]
  · have hne : text.toList ≠ [] := by simpa using htext
    rw [write, if_neg htext]
    cases cs with
    | nil => simp [ofText, empty, writeText, hne]
    | cons c rest =>
      have hjoin : String.ofList (c :: rest) ++ text = String.ofList (c :: rest ++ text.toList) := by
        rw [String.ofList_append, String.ofList_toList]
      exact congrArg (fun joined => (⟨[.outText joined]⟩ : Stream)) hjoin

namespace Script.Says

variable {k k' : Script} {cs ds : List Char}

theorem append (h : k.Says cs) (h' : k'.Says ds) : (k ++ k').Says (cs ++ ds) := by
  induction h with
  | done => exact h'
  | text text _ ih =>
    rw [statement_append, List.append_assoc]
    exact .text text ih
  | raw hbody _ _ ih =>
    rw [block_append, List.append_assoc]
    exact .raw hbody ih

/-- Texts are joined. -/
theorem foldl_write (h : k.Says cs) (before : List Char) :
    k.commands.foldl Stream.write (.ofText before) = .ofText (before ++ cs) := by
  induction h generalizing before with
  | done => simp [commands]
  | text text _ ih =>
    rw [commands, List.foldl_append, ← List.append_assoc, ← ih, ← Stream.write_ofText]
    rfl
  | raw _ _ hbody ih =>
    simp only [commands, Header.start?, Header.close?, Option.toList_none, List.nil_append,
      List.append_nil, List.foldl_append, hbody, ih, List.append_assoc]

/-- Nothing is reported or counted. -/
theorem play_eq (h : k.Says cs) (s : Session) :
    (k.play s).reports = s.reports ∧ (k.play s).expressions = s.expressions := by
  induction h generalizing s with
  | done => exact ⟨rfl, rfl⟩
  | text text _ ih => exact ih _
  | raw _ _ hbody ih =>
    obtain ⟨hreports, hexpressions⟩ := ih (Header.rawText.exit s _)
    obtain ⟨hreports', hexpressions'⟩ := hbody (Header.rawText.enter s)
    exact ⟨hreports.trans hreports', hexpressions.trans hexpressions'⟩

end Script.Says

/-! ### Drafts that write texts only -/

/-- A draft that does nothing but write texts, which make up the characters. -/
def Draft.Says (d : Draft Unit) (cs : List Char) : Prop :=
  ∀ n, (d.script n).Says cs

namespace Draft.Says

variable {d d' : Draft Unit} {cs ds : List Char}

theorem nil : Says (pure ()) [] := fun _ => .done

theorem say (text : String) : Says (.say (.outText text)) text.toList := fun _ => by
  simpa using Script.Says.text text .done

theorem of_eq (h : d.Says cs) (heq : cs = ds) : d.Says ds := heq ▸ h

theorem bind {f : Unit → Draft Unit} (h : d.Says cs) (h' : ∀ a, (f a).Says ds) :
    (d >>= f).Says (cs ++ ds) :=
  fun n => (h n).append (h' _ _)

theorem around_nil (h : d.Says cs) : (around .done [] d).Says cs := fun n => h n

theorem withinRaw (h : d.Says cs) : (within .rawText d).Says cs := fun n => by
  simpa using Script.Says.raw (h n) .done

end Draft.Says

/-! ### Text without expressions -/

/-- Text in which no expression begins is a single fragment, or none if it is empty. -/
theorem Fragment.parseAfter_of_isLiteral {input : List Char} (hinput : IsLiteral input)
    (found : List Char) (here : Location) :
    parseAfter found here input = .ok (flush (input.reverse ++ found) []) := by
  fun_induction parseAfter found here input with
  | case1 found here => rfl
  | case2 found here rest ih => exact absurd ⟨['\\'], rest, rfl⟩ hinput
  | case7 found here c rest _ _ ih =>
    have hrest : IsLiteral rest := fun h => hinput (h.trans (List.infix_cons (List.infix_refl _)))
    simpa using ih hrest
  | _ => exact absurd ⟨[], _, rfl⟩ hinput

theorem Fragment.parse_of_isLiteral {text : String} (htext : IsLiteral text.toList)
    (here : Location) : parse here text = .ok (flush text.toList.reverse []) := by
  rw [parse, parseAfter_of_isLiteral htext, List.append_nil]

theorem Fragment.says_flush (filters : Pipeline) (placement? : Option Placement)
    (found : List Char) :
    ((flush found []).forM (Fragment.draft filters placement?)).Says found.reverse := by
  cases found with
  | nil => exact .nil
  | cons c rest =>
    have hsay := Draft.Says.say (String.ofList (c :: rest).reverse)
    simpa [flush, Fragment.draft] using hsay

variable {filters : Pipeline} {registry : Registry}

theorem says_draftInterpolated {text : String} (htext : IsLiteral text.toList) (here : Location)
    (placement? : Option Placement) :
    (draftInterpolated filters text here placement?).Says text.toList := by
  rw [draftInterpolated, Fragment.parse_of_isLiteral htext]
  simpa using Fragment.says_flush filters placement? text.toList.reverse

namespace Markup

/-! ### Attributes and tags -/

theorem says_draftLiteralAttribute {name text : String} (htext : IsLiteral text.toList)
    (here : Location) (quote : Char) :
    (draftLiteralAttribute filters name text here (String.singleton quote)).Says
      (' ' :: name.toList ++ '=' :: quote :: text.toList ++ [quote]) := by
  have hfragments : draftLiteralAttribute filters name text here (String.singleton quote) =
      Draft.say (.outText (" " ++ name ++ "=" ++ String.singleton quote)) >>= fun _ =>
        (Fragment.flush text.toList.reverse []).forM
          (Fragment.draft filters (some (.ofAttribute name))) >>= fun _ =>
          Draft.say (.outText (String.singleton quote)) := by
    rw [draftLiteralAttribute, Fragment.parse_of_isLiteral htext]
    cases text.toList.reverse <;> rfl
  rw [hfragments]
  refine .of_eq (.bind (.say _) fun _ => .bind (Fragment.says_flush _ _ _) fun _ => .say _) ?_
  simp

theorem Attribute.Canonical.says_draft {attr : Attribute} (hattr : attr.Canonical)
    (here : Location) : ({ attr with location := here }.draft filters).Says attr.render := by
  obtain ⟨name, value, quote?, location⟩ := attr
  have hvalue := hattr.value
  match value, quote?, hvalue with
  | .absent, none, _ =>
    have hsay := Draft.Says.say (" " ++ name)
    simpa [draft, Attribute.render, AttributeValue.text?] using hsay
  | .literal text, some quote, ⟨_, _, htext⟩ =>
    have hwrites : (draftLiteralAttribute filters name text
        (Markup.valueLocation name (some quote) here) (String.singleton quote)).Says _ :=
      says_draftLiteralAttribute htext _ quote
    simpa [draft, Attribute.valueLocation, Attribute.render, AttributeValue.text?] using hwrites

theorem says_draftAttributes {attributes : List Attribute}
    (hattributes : ∀ attr ∈ attributes, attr.Canonical) (here : Location) :
    ((placedAttributes here attributes).forM (Attribute.draft filters)).Says
      (attributes.flatMap Attribute.render) := by
  induction attributes generalizing here with
  | nil => exact .nil
  | cons attr rest ih =>
    obtain ⟨hattr, hrest⟩ := List.forall_mem_cons.1 hattributes
    exact (hattr.says_draft _).bind fun _ => ih hrest _

/-- Canonical attributes are no directives. -/
theorem ne_directive_of_mem_placedAttributes {attributes : List Attribute}
    (hattributes : ∀ attr ∈ attributes, attr.Canonical) (here : Location) :
    ∀ attr ∈ placedAttributes here attributes, ∀ call e, attr.value ≠ .directive call e := by
  induction attributes generalizing here with
  | nil => exact List.forall_mem_nil _
  | cons attr rest ih =>
    obtain ⟨hattr, hrest⟩ := List.forall_mem_cons.1 hattributes
    refine List.forall_mem_cons.2 ⟨fun call e hvalue => ?_, ih hrest _⟩
    have hcanonical := hattr.value
    rw [show attr.value = .directive call e from hvalue] at hcanonical
    cases attr.quote <;> exact hcanonical

/-- Without directives there are no invocations. -/
theorem draftInvocations_eq_nil {attributes : List Attribute}
    (h : ∀ attr ∈ attributes, ∀ call e, attr.value ≠ .directive call e) :
    draftInvocations registry attributes = pure [] := by
  induction attributes with
  | nil => rfl
  | cons attr rest ih =>
    obtain ⟨hattr, hrest⟩ := List.forall_mem_cons.1 h
    rw [draftInvocations]
    split
    · next call e hvalue => exact absurd hvalue (hattr call e)
    · exact ih hrest

/-- Without directives all attributes are written. -/
theorem isWritten_of_ne_directive {attr : Attribute} (h : ∀ call e, attr.value ≠ .directive call e) :
    isWritten registry attr = true := by
  unfold isWritten
  split
  · next call e hvalue => exact absurd hvalue (h call e)
  · rfl

theorem says_draftStartTag {tag : Tag} (htag : tag.Canonical) (here : Location) :
    (draftStartTag filters registry (tag.placed here) [] Effect.none .never).Says
      tag.renderStart := by
  have hwritten : (tag.placed here).attributes.filter
      (fun attr => isWritten registry attr && !Effect.none.overrides attr.name) =
        (tag.placed here).attributes := by
    refine List.filter_eq_self.2 fun attr hattr => ?_
    have hvalue := ne_directive_of_mem_placedAttributes htag.attributes _ attr hattr
    rw [isWritten_of_ne_directive hvalue]
    rfl
  rw [draftStartTag, hwritten]
  refine .around_nil (.of_eq (.bind (.say _) fun _ => .bind (.say tag.name) fun _ =>
    .bind (says_draftAttributes htag.attributes _) fun _ => .bind .nil fun _ => .say _) ?_)
  rw [Tag.renderStart, show (tag.placed here).selfClosing = tag.selfClosing from rfl]
  cases tag.selfClosing <;> simp

theorem says_draftEndTag (tag : Tag) (here : Location) :
    (draftEndTag (tag.placed here) Effect.none .never).Says
      ('<' :: '/' :: tag.name.toList ++ ['>']) := by
  refine .around_nil (.of_eq (.bind (.say _) fun _ => .bind (.say tag.name) fun _ => .say _) ?_)
  simp

/-- The tags around content. -/
theorem says_draftTags {tag : Tag} (htag : tag.Canonical)
    (hend : tag.hasEndTag = true → tag.selfClosing = false) (here : Location)
    {content : Draft Unit} {cs : List Char} (hcontent : content.Says cs) :
    (draftTags filters registry (tag.placed here) [] content).Says
      (tag.renderStart ++ cs ++ tag.renderEnd) := by
  have hskip : (if isBareElement (tag.placed here).name then TagSkip.always
      else (Effect.all ([].map Invocation.effect)).skip) = .never :=
    if_neg (by simp [Tag.placed, htag.not_bare])
  rw [draftTags]
  simp only [hskip]
  refine .of_eq (.bind (says_draftStartTag htag here) fun _ => .bind hcontent fun _ => ?_)
    (List.append_assoc _ _ _).symm
  rw [Tag.renderEnd]
  by_cases htagEnd : tag.hasEndTag = true
  · rw [if_pos htagEnd, if_pos ⟨by decide, htagEnd, by simp [Tag.placed, hend htagEnd]⟩]
    exact says_draftEndTag tag here
  · rw [if_neg htagEnd, if_neg fun h => htagEnd h.2.1]
    exact .nil

theorem says_draftElement {tag : Tag} (htag : tag.Canonical)
    (hend : tag.hasEndTag = true → tag.selfClosing = false) (here : Location)
    {content : Draft Unit} {cs : List Char} (hcontent : content.Says cs) :
    (draftElement filters registry (tag.placed here) content).Says
      (tag.renderStart ++ cs ++ tag.renderEnd) := by
  have hattributes := ne_directive_of_mem_placedAttributes htag.attributes
    (here.advance ('<' :: tag.name.toList))
  have hinvocations : draftInvocations registry (tag.placed here).attributes = pure [] :=
    draftInvocations_eq_nil hattributes
  rw [draftElement, hinvocations, pure_bind]
  have htags : (draftTags filters registry (tag.placed here) [] content).Says _ :=
    says_draftTags htag hend here hcontent
  split
  · exact htags.withinRaw
  · exact htags.around_nil

theorem says_draftComment {text : String} (htext : IsLiteral text.toList)
    (hauthor : isAuthorComment text = false) (here : Location) :
    (draftComment filters text here).Says
      (['<', '!', '-', '-'] ++ text.toList ++ ['-', '-', '>']) := by
  rw [draftComment, if_neg (by simp [hauthor])]
  refine .of_eq (.bind (.say _) fun _ => .bind (says_draftInterpolated htext _ _) fun _ =>
    .say _) ?_
  simp

/-! ### Nodes -/

theorem says_draftRaw {name : String} {nodes : List Node} (h : ∀ node ∈ nodes, node.RawText name)
    (here : Location) :
    (draftAll filters registry (placedAll here nodes)).Says (renderAll nodes) := by
  induction nodes generalizing here with
  | nil => exact .nil
  | cons node rest ih =>
    obtain ⟨hnode, hrest⟩ := List.forall_mem_cons.1 h
    rw [placedAll, draftAll, renderAll]
    refine .bind ?_ fun _ => ih hrest _
    cases node with
    | text content _ =>
      rw [Node.placed, Node.draft, Node.render]
      exact says_draftInterpolated hnode.2.1 here none
    | comment content _ => exact hnode.elim
    | element tag children => exact hnode.elim

mutual

/-- The walk over a canonical node writes the written form of the node. -/
theorem Node.says_draft : ∀ (node : Node), node.Canonical → ∀ here,
    ((node.placed here).draft filters registry).Says node.render
  | .text content _, h, here => by
    rw [Node.placed, Node.draft, Node.render]
    exact says_draftInterpolated h.2.2 here none
  | .comment content _, h, here => by
    rw [Node.placed, Node.draft, Node.render]
    exact says_draftComment h.2.1 h.2.2 here
  | .element tag children, h, here => by
    rw [Node.Canonical] at h
    obtain ⟨htag, h⟩ := h
    rw [Node.placed, Node.draft, Node.render]
    split at h
    · next hend =>
      refine says_draftElement htag (fun _ => h.1.1) here ?_
      obtain ⟨-, hchildren⟩ := h
      split at hchildren
      · exact says_draftRaw hchildren.2 _
      · exact says_draftAll children hchildren _
    · next hend =>
      obtain rfl := List.isEmpty_iff.1 h.2
      exact says_draftElement htag (fun htagEnd => absurd htagEnd hend) here .nil

theorem says_draftAll : ∀ (nodes : List Node), CanonicalAll nodes → ∀ here,
    (draftAll filters registry (placedAll here nodes)).Says (renderAll nodes)
  | [], _, _ => .nil
  | node :: rest, h, here => by
    rw [CanonicalAll] at h
    rw [placedAll, draftAll, renderAll]
    exact (node.says_draft h.1 here).bind fun _ => says_draftAll rest h.2.1 _

end

mutual

theorem Node.elementCount_placed : ∀ (node : Node) (here : Location),
    (node.placed here).elementCount = node.elementCount
  | .text .., _ => rfl
  | .comment .., _ => rfl
  | .element tag children, here => by
    rw [Node.placed, Node.elementCount, Node.elementCount, elementCount_placedAll]

theorem elementCount_placedAll : ∀ (nodes : List Node) (here : Location),
    elementCount (placedAll here nodes) = elementCount nodes
  | [], _ => rfl
  | node :: rest, here => by
    rw [placedAll, elementCount, elementCount, node.elementCount_placed, elementCount_placedAll]

end

/-- Nothing but the empty forest has an empty written form. -/
theorem renderAll_ne_nil {node : Node} (h : node.Canonical) (rest : List Node) :
    renderAll (node :: rest) ≠ [] := by
  rw [renderAll]
  cases node with
  | text content here => exact fun hnil => h.1 (List.append_eq_nil_iff.1 hnil).1
  | comment content here => simp [Node.render]
  | element tag children => simp [Node.render, Tag.renderStart]

end Markup

namespace Compiler

variable {options : Options} {compiler : Compiler} {forest : List Node}

/-- A template whose script writes texts only is compiled to one text, without diagnostics. -/
theorem compileTemplate_of_texts (hdirectives : compiler.directives.Unmarked) {template : Template}
    {cs : List Char} (hwrites : (compiler.script template).Says cs) :
    compiler.compileTemplate template = .ok
      { commands := (Stream.ofText cs).commands
        diagnostics := []
        elements := template.elementCount
        expressions := 0 } := by
  have hcompile := compileTemplate_eq hdirectives template
  have hcommands := commands_play_start compiler (compiler.script template)
  rw [Stream.ofCommands, show Stream.empty = .ofText [] from rfl, hwrites.foldl_write,
    List.nil_append] at hcommands
  obtain ⟨hreports, hexpressions⟩ := hwrites.play_eq (Session.start compiler.setup)
  -- A text declares nothing that could hide a global.
  have hshadow : (Stream.ofText cs).commands.flatMap (Watcher.shadowReports
      (compiler.options.globals.map Text.lower) compiler.options.shadowPolicy) = [] := by
    rw [Stream.commands_ofText]
    split
    · rfl
    · cases compiler.options.shadowPolicy <;> rfl
  rw [hcompile, hcommands, hshadow, Session.diagnostics, hreports, hexpressions]
  rfl

/-- Canonical markup is compiled to a single command that writes it, without diagnostics, for all
options and in pieces of all sizes. -/
theorem compile_renderAll (hcompiler : ofOptions options = .ok compiler)
    (hforest : CanonicalAll forest) :
    compiler.compile (Bytes.encode (renderAll forest)) = .ok
      { commands := if forest.isEmpty then [] else [.outText (String.ofList (renderAll forest))]
        diagnostics := []
        elements := elementCount forest
        expressions := 0 } := by
  obtain rfl := eq_of_ofOptions hcompiler
  have hparse : Template.parse options.bufferSize (Bytes.encode (renderAll forest)) =
      .ok ⟨placedAll .start forest⟩ := by
    rw [Template.parse, Template.ofPieces_of_encode (Bytes.reads_pieces _ _).flatten,
      Template.ofText_renderAll hforest]
  have hwrites : (script ⟨options, .without options.disabledFilters, .builtin⟩
      ⟨placedAll .start forest⟩).Says (renderAll forest) := says_draftAll forest hforest .start 0
  have hempty : (renderAll forest).isEmpty = forest.isEmpty := by
    cases forest with
    | nil => rfl
    | cons node rest =>
      rw [CanonicalAll] at hforest
      simpa using renderAll_ne_nil hforest.1 rest
  rw [compile, hparse, ← hempty, ← Stream.commands_ofText, ← elementCount_placedAll forest .start]
  exact compileTemplate_of_texts Registry.unmarked_builtin hwrites

/-- Markup with a comment, attributes of all kinds, elements with and without an end tag, and raw
text that looks like a tag. -/
def plainForest : List Node :=
  [.text "5 > 4$" .nowhere,
    .comment "->-" .nowhere,
    .element ⟨"P", [⟨"id", .literal "a<b", some '\'', .nowhere⟩, ⟨"hidden", .absent, none, .nowhere⟩],
      false, true, .nowhere⟩
      [.element ⟨"br", [], true, false, .nowhere⟩ [], .text "\x7bé\x7d" .nowhere,
        .element ⟨"hr", [⟨"class", .literal "", some '"', .nowhere⟩], false, false, .nowhere⟩ []],
    .element ⟨"Script", [], false, true, .nowhere⟩ [.text "if (a</b/) x = '</p>'" .nowhere]]

/-- The markup as it is compiled, two bytes at a time. -/
theorem compile_renderAll_plain :
    String.ofList (renderAll plainForest) =
        "5 > 4$<!--->---><P id='a<b' hidden><br/>\x7bé\x7d<hr class=\"\"></P>" ++
          "<Script>if (a</b/) x = '</p>'</Script>" ∧
      CanonicalAll plainForest ∧
      ∃ compiler, ofOptions { Options.default with bufferSize := 2 } = .ok compiler ∧
        compiler.compile (Bytes.encode (renderAll plainForest)) = .ok
          { commands := [.outText (String.ofList (renderAll plainForest))]
            diagnostics := []
            elements := 4
            expressions := 0 } := by
  have hforest : CanonicalAll plainForest := by decide +kernel
  have hcompiler := ofOptions_default 2
  exact ⟨by decide +kernel, hforest, _, hcompiler, compile_renderAll hcompiler hforest⟩

end Compiler

end Stencil
