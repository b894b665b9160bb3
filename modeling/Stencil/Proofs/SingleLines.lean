import Stencil.Proofs.DisplayedExpressions
import Stencil.Proofs.ExpressionPlaces

/-!
# Texts on one line

Literals are written with their line feeds escaped. What else is written of an expression are names,
digits and signs, so an expression that has been read is written on one line, and so is what the
filters leave of it. A directive is called by the name of an attribute, which has no line feed.

## Main definitions

* `Text.OneLine`: a text without line feeds
* `Term.OneLine`, `Expression.OneLine`: a term or an expression that is written on one line
* `Markup.Attribute.OneLine`: a directive whose arguments and whose expression are on one line

## Main results

* `Expression.oneLine_of_parse`: an expression that is read is written on one line
* `Written.oneLine_filtered`: filters keep expressions on one line
* `Markup.Template.oneLine_of_parse`: the directives of a template that is read
-/

namespace Stencil

namespace Text

/-! ### Texts -/

/-- A text without line feeds. -/
def OneLine (s : String) : Prop :=
  '\n' ∉ s.toList

instance : DecidablePred OneLine := fun s => inferInstanceAs (Decidable ('\n' ∉ s.toList))

variable {s t : String}

theorem OneLine.append (hs : OneLine s) (ht : OneLine t := by decide) : OneLine (s ++ t) := by
  rw [OneLine, String.toList_append, List.mem_append, not_or]
  exact ⟨hs, ht⟩

/-- A text behind a literal. -/
theorem OneLine.after (ht : OneLine t) (hs : OneLine s := by decide) : OneLine (s ++ t) :=
  hs.append ht

theorem oneLine_ofList {cs : List Char} (h : '\n' ∉ cs) : OneLine (String.ofList cs) := by
  rwa [OneLine, String.toList_ofList]

/-- What is written one after the other on one line each is on one line. -/
theorem OneLine.foldl_append {f : Char → String} (hs : OneLine s) (hf : ∀ c, OneLine (f c))
    (cs : List Char) : OneLine (cs.foldl (fun written c => written ++ f c) s) := by
  induction cs generalizing s with
  | nil => exact hs
  | cons c cs ih => exact ih (hs.append (hf c))

theorem oneLine_intercalate {parts : List String} (hs : OneLine s)
    (h : ∀ part ∈ parts, OneLine part) : OneLine (s.intercalate parts) := by
  induction parts with
  | nil => exact (by decide : OneLine "")
  | cons part rest ih =>
    obtain ⟨hpart, hrest⟩ := List.forall_mem_cons.1 h
    cases rest with
    | nil => rwa [String.intercalate_singleton]
    | cons next rest =>
      rw [String.intercalate_cons_cons]
      exact (hpart.append hs).append (ih hrest)

/-- No digit is a line feed. -/
theorem notMem_of_isDigit {cs : List Char} (h : ∀ c ∈ cs, c.isDigit = true) : '\n' ∉ cs :=
  fun hmem => absurd (h _ hmem) (by decide)

theorem oneLine_toString (n : Nat) : OneLine (toString n) := by
  rw [Nat.toString_eq_ofList_toDigits]
  exact oneLine_ofList (notMem_of_isDigit fun c hc =>
    Nat.isDigit_of_mem_toDigits (by decide) (by decide) hc)

theorem oneLine_hexDigits (n : Nat) : OneLine (hexDigits n) := by
  have hdigit : ∀ d < 16, '\n' ≠ Nat.digitChar d := by decide
  refine oneLine_ofList ?_
  induction n using Nat.strongRecOn with
  | _ n ih =>
    rcases Nat.lt_or_ge n 16 with hlt | hge
    · rw [Nat.toDigits_of_lt_base hlt, List.mem_singleton]
      exact hdigit n hlt
    · rw [Nat.toDigits_of_base_le (by decide) hge, List.mem_append, List.mem_singleton, not_or]
      exact ⟨ih (n / 16) (by omega), hdigit (n % 16) (by omega)⟩

theorem oneLine_quotedChar {quote : Char} (hquote : quote ≠ '\n') (c : Char) :
    OneLine (quotedChar quote c) := by
  unfold quotedChar
  split
  · next hc => exact oneLine_ofList (by simp [hc, hquote.symm])
  · split
    · decide
    · decide
    · decide
    · decide
    · decide
    · next hc _ _ _ =>
      split
      · exact oneLine_ofList (by simpa using Ne.symm hc)
      · exact (OneLine.after (oneLine_hexDigits _)).append

theorem oneLine_quoted (s : String) : OneLine (quoted s) :=
  (OneLine.foldl_append (by decide) (oneLine_quotedChar (by decide)) s.toList).append
    (by decide)

end Text

open Text (OneLine)

theorem oneLine_of_isIdentifier {name : String} (h : isIdentifier name = true) : OneLine name := by
  unfold isIdentifier at h
  unfold OneLine
  split at h
  · cases h
  · next first rest hname =>
    rw [Bool.and_eq_true] at h
    rw [hname, List.mem_cons, not_or]
    refine ⟨?_, fun hmem => ?_⟩
    · rintro rfl
      exact absurd h.1 (by decide +kernel)
    · exact absurd (List.all_eq_true.1 h.2 _ hmem) (by decide +kernel)

/-! ### Terms -/

namespace Term

/-- A term that is written on one line. -/
def OneLine (t : Term) : Prop :=
  Text.OneLine t.render

theorem oneLine_escape (c : Char) : Text.OneLine (escape c) := by
  unfold escape
  split
  · decide
  · decide
  · decide
  · decide
  · decide
  · next hc _ _ => exact Text.oneLine_ofList (by simpa using Ne.symm hc)

theorem oneLine_null : OneLine .null := by
  rw [OneLine, render]
  decide

theorem oneLine_text (value : String) : OneLine (.text value) := by
  rw [OneLine, render, quote]
  exact (Text.OneLine.foldl_append (by decide) oneLine_escape _).append (by decide)

theorem oneLine_identifier {name : String} (h : Text.OneLine name) :
    OneLine (.identifier name) := by
  rwa [OneLine, render]

theorem oneLine_choice {condition yes no : Term} (hcondition : condition.OneLine)
    (hyes : yes.OneLine) (hno : no.OneLine) : OneLine (.choice condition yes no) := by
  rw [OneLine, render]
  have hopen : Text.OneLine ("(" ++ condition.render) := .after hcondition
  have hmiddle : Text.OneLine ("(" ++ condition.render ++ " ? " ++ yes.render) :=
    hopen.append.append hyes
  exact (hmiddle.append.append hno).append

theorem oneLine_renderItems {items : List Term} (h : ∀ item ∈ items, item.OneLine) :
    Text.OneLine (renderItems items) := by
  induction items with
  | nil =>
    rw [renderItems]
    decide
  | cons item rest ih =>
    obtain ⟨hitem, hrest⟩ := List.forall_mem_cons.1 h
    cases rest with
    | nil => rwa [renderItems]
    | cons next rest =>
      rw [renderItems]
      exact (hitem.append (by decide)).append (ih hrest)

theorem oneLine_call {function : String} (hfunction : Text.OneLine function)
    {arguments : List Term} (h : ∀ argument ∈ arguments, argument.OneLine) :
    OneLine (.call function arguments) := by
  rw [OneLine, render]
  exact ((hfunction.append (by decide)).append (oneLine_renderItems h)).append (by decide)

/-- An entry that is written on one line. -/
def OneLineEntry (entry : String × Term) : Prop :=
  Text.OneLine entry.1 ∧ entry.2.OneLine

theorem oneLine_renderEntries {entries : List (String × Term)}
    (h : ∀ entry ∈ entries, OneLineEntry entry) : Text.OneLine (renderEntries entries) := by
  induction entries with
  | nil =>
    rw [renderEntries]
    decide
  | cons entry rest ih =>
    obtain ⟨⟨hname, hvalue⟩, hrest⟩ := List.forall_mem_cons.1 h
    have hentry : Text.OneLine (entry.1 ++ ": " ++ entry.2.render) :=
      hname.append.append hvalue
    cases rest with
    | nil => rwa [renderEntries]
    | cons next rest =>
      rw [renderEntries]
      exact hentry.append.append (ih hrest)

theorem oneLine_map {entries : List (String × Term)} (h : ∀ entry ∈ entries, OneLineEntry entry) :
    OneLine (.map entries) := by
  rw [OneLine, render]
  exact (Text.OneLine.append (by decide) (oneLine_renderEntries h)).append (by decide)

theorem oneLine_property {target key : Term} (htarget : target.OneLine) (hkey : key.OneLine) :
    OneLine (.property target key) := by
  rw [OneLine, render]
  cases hdotted : dotted? key with
  | some name =>
    exact htarget.append.append (oneLine_of_isIdentifier (isIdentifier_of_dotted? hdotted))
  | none => exact (htarget.append.append hkey).append

theorem oneLine_writeNumber {value : Binary64} (h : value = .infinite false ∨ value.IsNumeral) :
    Text.OneLine (writeNumber value) := by
  rcases h with rfl | h
  · decide
  · obtain ⟨n, htext, -⟩ := exists_numeral_writeNumber h
    rw [Text.OneLine, ← htext, Numeral.text, List.mem_append, not_or]
    refine ⟨Text.notMem_of_isDigit n.isDigit_whole, ?_⟩
    unfold Numeral.afterPoint
    split
    · exact List.not_mem_nil
    · rw [List.mem_cons, not_or]
      exact ⟨by decide, Text.notMem_of_isDigit n.isDigit_fraction⟩

mutual

/-- A term that can be read is written on one line. -/
theorem oneLine_of_readable : ∀ {t : Term}, t.Readable → t.OneLine
  | .null, _ => oneLine_null
  | .text value, _ => oneLine_text value
  | .number value, h => by
    rw [Readable] at h
    rw [OneLine, render]
    exact oneLine_writeNumber h
  | .boolean value, _ => by
    rw [OneLine, render]
    cases value <;> decide
  | .identifier name, h => by
    rw [Readable] at h
    exact oneLine_identifier (oneLine_of_isIdentifier h.1)
  | .property target key, h => by
    rw [Readable] at h
    exact oneLine_property (oneLine_of_readable h.1) (oneLine_of_readable h.2)
  | .array items, h => by
    rw [Readable] at h
    rw [OneLine, render]
    exact (oneLine_renderItems (oneLine_of_readableItems h)).after.append
  | .map entries, h => by
    rw [Readable] at h
    exact h.elim
  | .unary operator operand, h => by
    rw [Readable] at h
    rw [OneLine, render, h.1]
    exact .after (oneLine_of_readable h.2)
  | .binary operator left right, h => by
    rw [Readable] at h
    rw [OneLine, render]
    have hoperator : Text.OneLine operator.symbol := by cases operator <;> decide
    have hleft : Text.OneLine ("(" ++ left.render ++ " ") :=
      Text.OneLine.append (.after (oneLine_of_readable h.1))
    exact ((hleft.append hoperator).append.append (oneLine_of_readable h.2)).append
  | .choice condition yes no, h => by
    rw [Readable] at h
    exact oneLine_choice (oneLine_of_readable h.1) (oneLine_of_readable h.2.1)
      (oneLine_of_readable h.2.2)
  | .call function arguments, h => by
    rw [Readable] at h
    exact h.elim

theorem oneLine_of_readableItems :
    ∀ {items : List Term}, ReadableItems items → ∀ item ∈ items, item.OneLine
  | [], _ => List.forall_mem_nil _
  | item :: rest, h => by
    rw [ReadableItems] at h
    exact List.forall_mem_cons.2 ⟨oneLine_of_readable h.1, oneLine_of_readableItems h.2⟩

end

end Term

/-! ### Expressions -/

/-- An expression whose root and options are written on one line. -/
structure Expression.OneLine (e : Expression) : Prop where
  root : e.root.OneLine
  options : ∀ option ∈ e.options, Term.OneLineEntry option

theorem Expression.oneLine_ofRoot {root : Term} (h : root.OneLine) : (ofRoot root).OneLine :=
  ⟨h, List.forall_mem_nil _⟩

/-- An expression that is read is written on one line. -/
theorem Expression.oneLine_of_parse {here : Location} {body : List Char} {e : Expression}
    (h : parse here body = .ok e) : e.OneLine := by
  have hreadable := readable_of_parse h
  refine ⟨Term.oneLine_of_readable hreadable.root, fun option hoption => ?_⟩
  obtain ⟨hname, hvalue⟩ := hreadable.options option hoption
  exact ⟨oneLine_of_isIdentifier hname, Term.oneLine_of_readable hvalue⟩

namespace Fragment

theorem Segmented.oneLine {here : Location} {parts : List (Fragment × List Char)}
    (h : Segmented here parts) {e : Expression} {place : Location}
    (hmem : .expression e place ∈ parts.map Prod.fst) : e.OneLine := by
  induction parts generalizing here with
  | nil => cases hmem
  | cons part rest ih =>
    obtain ⟨hpart, hrest⟩ := h
    rcases List.mem_cons.1 hmem with hfirst | hmem
    · rw [← hfirst] at hpart
      obtain ⟨-, body, -, hparse⟩ := hpart
      exact Expression.oneLine_of_parse hparse
    · exact ih hrest hmem

/-- The expressions in a text. -/
theorem oneLine_of_parse {here : Location} {text : String} {fragments : List Fragment}
    (h : parse here text = .ok fragments) {e : Expression} {place : Location}
    (hmem : .expression e place ∈ fragments) : e.OneLine := by
  obtain ⟨parts, rfl, -, hsegmented⟩ := exists_segmented h
  exact hsegmented.oneLine hmem

end Fragment

/-! ### Filters -/

namespace Filter

variable {filter : Filter} {root : Term} {values : List (Option Term)} {e : Expression}

/-- The filters of the language call functions, with the root and with options for arguments. -/
theorem oneLine_replacement (hfilter : filter ∈ Pipeline.builtin) (hroot : root.OneLine)
    (hvalues : ∀ value, some value ∈ values → value.OneLine) :
    (filter.replacement root values).OneLine := by
  have harguments : ∀ argument ∈ root :: values.map (·.getD .null), argument.OneLine := by
    refine List.forall_mem_cons.2 ⟨hroot, fun argument hargument => ?_⟩
    obtain ⟨_ | value, hvalue, rfl⟩ := List.mem_map.1 hargument
    · exact Term.oneLine_null
    · exact hvalues value hvalue
  have hpresent : ∀ entry ∈ present ["locale", "hint"] values.tail, Term.OneLineEntry entry := by
    intro entry hentry
    obtain ⟨⟨name, value?⟩, hzip, hentry⟩ :=
      List.mem_filterMap.1 (Entries.mem_of_mem_ofList hentry)
    obtain ⟨value, rfl, rfl⟩ := Option.map_eq_some_iff.1 hentry
    obtain ⟨hname, hvalue⟩ := List.of_mem_zip hzip
    have hnames : ∀ name ∈ ["locale", "hint"], OneLine name := by decide
    exact ⟨hnames name hname, hvalues value (List.mem_of_mem_tail hvalue)⟩
  simp only [Pipeline.builtin, List.mem_cons, List.not_mem_nil, or_false] at hfilter
  rcases hfilter with rfl | rfl | rfl | rfl
  -- Translation alone has named options, which are put into a map.
  · exact Term.oneLine_call (by decide) (List.forall_mem_cons.2
      ⟨hroot, List.forall_mem_singleton.2 (Term.oneLine_map hpresent)⟩)
  · exact Term.oneLine_call (by decide) harguments
  · exact Term.oneLine_call (by decide) harguments
  · exact Term.oneLine_call (by decide) harguments

theorem oneLine_apply (hfilter : filter ∈ Pipeline.builtin) (h : e.OneLine) :
    (filter.apply e).OneLine := by
  unfold apply
  split
  · refine ⟨oneLine_replacement hfilter h.root fun value hvalue => ?_, fun option hoption => ?_⟩
    · obtain ⟨name, -, hfound⟩ := List.mem_map.1 hvalue
      exact (h.options _ (Entries.mem_of_find?_eq_some hfound)).2
    · exact h.options option (List.mem_filter.1 hoption).1
  · exact h

end Filter

theorem Pipeline.oneLine_apply {filters : Pipeline} (hfilters : filters ⊆ builtin) {e : Expression}
    (h : e.OneLine) : (filters.apply e).OneLine := by
  induction filters generalizing e with
  | nil => exact h
  | cons filter rest ih =>
    obtain ⟨hfilter, hrest⟩ := List.cons_subset.1 hfilters
    exact ih hrest (Filter.oneLine_apply hfilter h)

/-- What its position and the filters leave of an expression on one line is on one line. -/
theorem Written.oneLine_filtered {filters : Pipeline} (hfilters : filters ⊆ .builtin)
    {source : Written} (h : source.expression.OneLine) (placement? : Option Placement) :
    (source.filtered filters placement?).OneLine := by
  refine Pipeline.oneLine_apply hfilters ?_
  unfold Session.withContext
  split
  · split
    · exact h
    · refine ⟨h.root, fun option hoption => ?_⟩
      rcases Entries.mem_insert hoption with rfl | hoption
      · exact ⟨(by decide : OneLine Filter.contextOption), Term.oneLine_text _⟩
      · exact h.options option hoption
  · exact h

/-! ### Directives -/

namespace Markup

theorem oneLine_directiveExpression {here : Location} {value? : Option String} {e : Expression}
    (h : directiveExpression here value? = .ok e) : e.OneLine := by
  rcases directiveExpression_cases h with
    rfl | ⟨constant, rfl⟩ | ⟨text, fragments, place, hfragments, hmem⟩
  · exact Expression.oneLine_ofRoot Term.oneLine_null
  · exact Expression.oneLine_ofRoot (Term.oneLine_text constant)
  · exact Fragment.oneLine_of_parse hfragments hmem

theorem mem_of_mem_splitOn {separator c : Char} {cs part : List Char}
    (hpart : part ∈ Text.splitOn separator cs) (hc : c ∈ part) : c ∈ cs := by
  induction cs generalizing part with
  | nil =>
    rw [Text.splitOn, List.mem_singleton] at hpart
    rwa [hpart] at hc
  | cons first rest ih =>
    rw [Text.splitOn] at hpart
    split at hpart
    · rcases List.mem_cons.1 hpart with rfl | hpart
      · cases hc
      · exact List.mem_cons_of_mem _ (ih hpart hc)
    · split at hpart
      · rw [List.mem_singleton.1 hpart, List.mem_singleton] at hc
        exact hc ▸ List.mem_cons_self
      · next begin parts hsplit =>
        rcases List.mem_cons.1 hpart with rfl | hpart
        · rcases List.mem_cons.1 hc with rfl | hc
          · exact List.mem_cons_self
          · exact List.mem_cons_of_mem _ (ih (hsplit ▸ List.mem_cons_self) hc)
        · exact List.mem_cons_of_mem _ (ih (hsplit ▸ List.mem_cons_of_mem _ hpart) hc)

/-- The arguments of a directive are parts of the name of its attribute. -/
theorem DirectiveCall.oneLine_of_ofAttributeName? {name : String} {call : DirectiveCall}
    (hname : OneLine name) (h : ofAttributeName? name = some call) :
    ∀ argument ∈ call.arguments, OneLine argument := by
  unfold ofAttributeName? at h
  simp only [Option.ite_none_right_eq_some] at h
  obtain ⟨-, h⟩ := h
  obtain rfl := Option.some.inj h
  intro argument hargument
  unfold parse at hargument
  split at hargument
  · cases hargument
  · next first arguments hsplit =>
    obtain ⟨part, hpart, rfl⟩ := List.mem_map.1 hargument
    refine Text.oneLine_ofList fun hmem => hname ?_
    have hrest := mem_of_mem_splitOn (hsplit ▸ List.mem_cons_of_mem _ hpart) hmem
    rw [String.toList_ofList] at hrest
    exact List.mem_of_mem_drop hrest

/-- If an attribute is a directive, its arguments and its expression are on one line. -/
def Attribute.OneLine (attr : Attribute) : Prop :=
  ∀ call e, attr.value = .directive call e →
    (∀ argument ∈ call.arguments, Text.OneLine argument) ∧ e.OneLine

theorem Attribute.oneLine_of_ofWritten {written : WrittenAttribute} (hwritten : written.Accepted)
    {attr : Attribute} (h : ofWritten written = .ok attr) : attr.OneLine := by
  intro call e hvalue
  cases hname : DirectiveCall.ofAttributeName? written.name with
  | none =>
    rw [ofWritten_of_none hname] at h
    obtain rfl := Except.ok.inj h
    cases hplain : written.value <;> rw [hplain] at hvalue <;> cases hvalue
  | some found =>
    rw [ofWritten_of_some hname] at h
    obtain ⟨expression, hexpression, h⟩ := exists_of_bind_eq_ok h
    obtain rfl := Except.ok.inj h
    obtain ⟨rfl, rfl⟩ := AttributeValue.directive.inj hvalue
    exact ⟨DirectiveCall.oneLine_of_ofAttributeName? hwritten.notMem_name hname,
      oneLine_directiveExpression hexpression⟩

/-- The directives of a template that is read. -/
theorem Template.oneLine_of_parse {size : Nat} {bytes : List UInt8} {template : Template}
    (h : parse size bytes = .ok template) :
    ∀ tag ∈ template.tags, ∀ attr ∈ tag.attributes, attr.OneLine := by
  obtain ⟨source, -, hsource⟩ := exists_encode h
  obtain ⟨events, b, hevents, hb, rfl⟩ := ofText_eq_ok_iff.1 hsource
  have hwritten : ∀ tag, .startTag tag ∈ events → ∀ written ∈ tag.attributes, ∀ attr,
      Attribute.ofWritten written = .ok attr → attr.OneLine := fun tag htag written hmem _ hread =>
    Attribute.oneLine_of_ofWritten
      ((Scanner.accepted_of_events hevents htag).attributes written hmem) hread
  have hholds := Builder.holds_start.takeAll hwritten hb
  intro tag htag
  obtain ⟨node, hnode, htag⟩ := mem_tagsOf.1 htag
  exact hholds.forest node (List.mem_reverse.1 hnode) tag htag

end Markup

end Stencil
