import Stencil.Proofs.Relocation
import Stencil.Proofs.Renaming

/-!
# Texts, attributes and directives under other names

A text or an attribute at two places is written by the same commands up to locations, whatever is
renamed, as long as the names in it and those made for it are kept. A directive that is given other
names writes the same commands at its hooks, up to these names.

## Main definitions

* `textNames`, `Markup.Attribute.names`: the names that an author writes in expressions
* `Invocation.Alike`: invocations that are the same up to a renaming and locations

## Main results

* `unmoved_draftInterpolated`: a text with expressions
* `Markup.Attribute.unmoved_draft`: an attribute
* `Invocation.Alike.elementOpening` and the like: what an invocation writes at each hook
-/

namespace Stencil

open Draft

variable {ρ : String → String} {filters : Pipeline} {here : Location}

/-! ### Names in expressions -/

/-- The names in the root and the options of an expression. -/
def Expression.names (e : Expression) : List String :=
  e.root.names ++ Term.namesOfEntries e.options

/-- The names in a part of a text. -/
def Fragment.names : Fragment → List String
  | .text _ => []
  | .expression e _ => e.names

/-- The names in a text with expressions; one that cannot be read has none. -/
def textNames (text : String) (here : Location) : List String :=
  match Fragment.parse here text with
  | .ok fragments => fragments.flatMap Fragment.names
  | .error _ => []

/-- The names in an attribute. -/
def Markup.Attribute.names (attr : Attribute) : List String :=
  match attr.value with
  | .absent => []
  | .literal text => textNames text attr.valueLocation
  | .directive _ e => e.names

theorem Term.subset_namesOfEntries {entries : List (String × Term)} {entry : String × Term}
    (h : entry ∈ entries) : entry.2.names ⊆ namesOfEntries entries := by
  induction entries with
  | nil => cases h
  | cons first rest ih =>
    rcases List.mem_cons.1 h with rfl | h
    · exact List.subset_append_left _ _
    · exact List.subset_append_of_subset_right _ (ih h)

/-! ### Expressions where they are written -/

/-- The same expression at two places, with names that the renaming keeps. -/
structure Written.Alike (ρ : String → String) (source other : Written) : Prop where
  expression : other.expression = source.expression
  fixed : source.expression.Forall (Term.Fixed ρ)

namespace Written.Alike

variable {source other : Written}

theorem of_names (h : other.expression = source.expression)
    (hnames : ∀ name ∈ source.expression.names, ρ name = name) : Alike ρ source other := by
  obtain ⟨hroot, hoptions⟩ := List.forall_mem_append.1 hnames
  refine ⟨h, Term.rename_of_names _ hroot, fun option hoption => ?_⟩
  exact Term.rename_of_names _ fun name hname =>
    hoptions name (Term.subset_namesOfEntries hoption hname)

theorem filtered_eq (h : Alike ρ source other) (placement? : Option Placement) :
    other.filtered filters placement? = source.filtered filters placement? := by
  rw [filtered, h.expression, filtered]

/-- Filters put no names into the root. -/
theorem root (h : Alike ρ source other) (hfilters : filters ⊆ .builtin)
    (placement? : Option Placement) :
    (source.filtered filters placement?).root.rename ρ =
      (other.filtered filters placement?).root := by
  rw [h.filtered_eq]
  exact (forall_filtered Term.filterable_fixed hfilters h.fixed placement?).1

theorem options (h : Alike ρ source other) (hfilters : filters ⊆ .builtin)
    (placement? : Option Placement) :
    Term.renameEntries ρ (source.filtered filters placement?).options =
      (other.filtered filters placement?).options := by
  rw [h.filtered_eq]
  exact Term.renameEntries_of_fixed
    (forall_filtered Term.filterable_fixed hfilters h.fixed placement?).2

theorem insertion (h : Alike ρ source other) (hfilters : filters ⊆ .builtin) (function : String) :
    (source.insertion filters function).rename ρ = other.insertion filters function := by
  simp only [Written.insertion, Term.rename, Term.renameItems, h.root hfilters, h.options hfilters]

end Written.Alike

theorem Header.alike_binding {kind kind' : DeclarationKind} {name name' : String}
    {value value' : Term} {here' : Location} (hname : ρ name = name')
    (hvalue : value.rename ρ = value') :
    Alike ρ (.binding kind name value here) (.binding kind' name' value' here') := by
  subst hname hvalue
  exact ⟨rfl, rfl⟩

theorem Header.alike_conditional (name : String) (expected : Bool) :
    Alike ρ (.conditional name expected) (.conditional (ρ name) expected) :=
  ⟨rfl, rfl⟩

/-! ### Text with expressions -/

theorem Written.unmoved_checkIn (source other : Written) (placement? : Option Placement) :
    Unmoved ρ (.write (source.checkIn filters placement?))
      (.write (other.checkIn filters placement?)) := by
  cases placement? <;> exact .write (fun _ => rfl) (fun _ => rfl) rfl rfl

theorem Fragment.unmoved_draft (hfilters : filters ⊆ .builtin) {fragment other : Fragment}
    (hsame : other.unplaced = fragment.unplaced)
    (hnames : ∀ name ∈ fragment.names, ρ name = name) (placement? : Option Placement) :
    Unmoved ρ (fragment.draft filters placement?) (other.draft filters placement?) := by
  cases fragment with
  | text literal =>
    cases other with
    | text literal' =>
      obtain rfl := Fragment.text.inj hsame
      exact .text _
    | expression e' there => cases hsame
  | expression e here =>
    cases other with
    | text literal' => cases hsame
    | expression e' there =>
      obtain rfl := (Fragment.expression.inj hsame).1
      have hsource : Written.Alike ρ ⟨e', here⟩ ⟨e', there⟩ := .of_names rfl hnames
      refine (Written.unmoved_checkIn _ _ placement?).bind (.bind_fresh fun name hname => ?_)
      exact .within (Header.alike_binding hname (hsource.root hfilters _)) (.outVariable hname)

theorem unmoved_draftMalformed (error other : ExpressionError) :
    Unmoved ρ (draftMalformed error) (draftMalformed other) :=
  .write (fun _ => rfl) (fun _ => rfl) rfl rfl

theorem unmoved_fragments (hfilters : filters ⊆ .builtin) {fragments others : List Fragment}
    (hsame : others.map Fragment.unplaced = fragments.map Fragment.unplaced)
    (hnames : ∀ name ∈ fragments.flatMap Fragment.names, ρ name = name)
    (placement? : Option Placement) :
    Unmoved ρ (fragments.forM (Fragment.draft filters placement?))
      (others.forM (Fragment.draft filters placement?)) := by
  refine .forM hsame fun fragment hfragment other hother => ?_
  exact Fragment.unmoved_draft hfilters hother
    (fun name hname => hnames name (List.mem_flatMap.2 ⟨fragment, hfragment, hname⟩)) placement?

theorem textNames_of_ok {text : String} {fragments : List Fragment}
    (h : Fragment.parse here text = .ok fragments) :
    textNames text here = fragments.flatMap Fragment.names := by
  rw [textNames, h]

/-- A text with expressions at two places. -/
theorem unmoved_draftInterpolated (hfilters : filters ⊆ .builtin) {text : String}
    (hnames : ∀ name ∈ textNames text here, ρ name = name) (there : Location)
    (placement? : Option Placement) :
    Unmoved ρ (draftInterpolated filters text here placement?)
      (draftInterpolated filters text there placement?) := by
  unfold draftInterpolated
  cases hparse : Fragment.parse here text with
  | ok fragments =>
    obtain ⟨others, hothers, hsame⟩ := Fragment.exists_parse hparse there
    rw [textNames_of_ok hparse] at hnames
    rw [hothers]
    exact unmoved_fragments hfilters hsame hnames placement?
  -- What cannot be read at one place cannot be at another, and is written as it is.
  | error error =>
    obtain ⟨error', herror'⟩ := Fragment.exists_parse_error hparse there
    rw [herror']
    exact (unmoved_draftMalformed error error').bind (.text text)

namespace Markup

/-! ### Attributes -/

theorem unmoved_draftDynamicAttribute (hfilters : filters ⊆ .builtin) (name : String)
    {source other : Written} (h : source.Alike ρ other) (quote : String) :
    Unmoved ρ (draftDynamicAttribute filters name source quote)
      (draftDynamicAttribute filters name other quote) := by
  have hcheck : Unmoved ρ (.say (source.check filters (some (.ofAttribute name))))
      (.say (other.check filters (some (.ofAttribute name)))) :=
    .write (fun _ => rfl) (fun _ => rfl) rfl rfl
  refine hcheck.bind (.bind_fresh fun held hheld => ?_)
  have hcondition : Header.Alike ρ (.conditional held true) (.conditional held true) := by
    have halike : Header.Alike ρ (.conditional held true) (.conditional (ρ held) true) :=
      Header.alike_conditional held true
    rwa [hheld] at halike
  refine .within (Header.alike_binding hheld (h.root hfilters _)) (.within hcondition ?_)
  exact (Unmoved.text _).bind ((Unmoved.outVariable hheld).bind (.text _))

theorem draftLiteralAttribute_of_ne {name text quote : String} {fragments : List Fragment}
    (hparse : Fragment.parse here text = .ok fragments)
    (hne : ∀ e place, fragments ≠ [.expression e place]) :
    draftLiteralAttribute filters name text here quote = (do
      .say (.outText (" " ++ name ++ "=" ++ quote))
      fragments.forM (Fragment.draft filters (some (.ofAttribute name)))
      .say (.outText quote)) := by
  rw [draftLiteralAttribute, hparse]
  split
  · next heq => cases heq
  · next e place heq => exact absurd (Except.ok.inj heq) (hne e place)
  · next heq =>
    obtain rfl := Except.ok.inj heq
    rfl

theorem unmoved_draftLiteralAttribute (hfilters : filters ⊆ .builtin) (name : String)
    {text : String} (hnames : ∀ name ∈ textNames text here, ρ name = name) (there : Location)
    (quote : String) :
    Unmoved ρ (draftLiteralAttribute filters name text here quote)
      (draftLiteralAttribute filters name text there quote) := by
  cases hparse : Fragment.parse here text with
  | error error =>
    obtain ⟨error', herror'⟩ := Fragment.exists_parse_error hparse there
    simp only [draftLiteralAttribute, hparse, herror']
    exact (unmoved_draftMalformed error error').bind (.text _)
  | ok fragments =>
    obtain ⟨others, hothers, hsame⟩ := Fragment.exists_parse hparse there
    rw [textNames_of_ok hparse] at hnames
    -- A value that is one expression can leave the attribute out; any other is written as text.
    by_cases hsingle : ∃ e place, fragments = [.expression e place]
    · obtain ⟨e, place, rfl⟩ := hsingle
      obtain ⟨other, rfl, hother⟩ := List.map_eq_singleton_iff.1 hsame
      cases other with
      | text literal => cases hother
      | expression e' place' =>
        obtain rfl := (Fragment.expression.inj hother).1
        have hsource : Written.Alike ρ ⟨e', place⟩ ⟨e', place'⟩ :=
          .of_names rfl fun name hname =>
            hnames name (List.mem_flatMap.2 ⟨_, List.mem_cons_self, hname⟩)
        simp only [draftLiteralAttribute, hparse, hothers]
        exact unmoved_draftDynamicAttribute hfilters name hsource quote
    · have hnone : ∀ e place, fragments ≠ [.expression e place] :=
        fun e place heq => hsingle ⟨e, place, heq⟩
      have hnone' : ∀ e place, others ≠ [.expression e place] := by
        rintro e place rfl
        obtain ⟨fragment, rfl, hfragment⟩ := List.map_eq_singleton_iff.1 hsame.symm
        cases fragment with
        | text literal => cases hfragment
        | expression e' place' => exact hnone e' place' rfl
      rw [draftLiteralAttribute_of_ne hparse hnone, draftLiteralAttribute_of_ne hothers hnone']
      exact (Unmoved.text _).bind ((unmoved_fragments hfilters hsame hnames _).bind (.text _))

/-- An attribute at two places. -/
theorem Attribute.unmoved_draft (hfilters : filters ⊆ .builtin) {attr other : Attribute}
    (hsame : other.unplaced = attr.unplaced) (hnames : ∀ name ∈ attr.names, ρ name = name) :
    Unmoved ρ (attr.draft filters) (other.draft filters) := by
  obtain ⟨hname, hvalue, hquote⟩ := Attribute.unplaced_inj.1 hsame
  unfold Attribute.names at hnames
  unfold Attribute.draft
  rw [hname, hvalue, hquote]
  cases hattr : attr.value with
  | absent => exact .text _
  | literal text =>
    rw [hattr] at hnames
    exact unmoved_draftLiteralAttribute hfilters attr.name hnames _ _
  | directive call e =>
    rw [hattr] at hnames
    have hsource : Written.Alike ρ ⟨e, attr.valueLocation⟩ ⟨e, other.valueLocation⟩ :=
      .of_names rfl hnames
    exact unmoved_draftDynamicAttribute hfilters attr.name hsource _

end Markup

/-! ### Invocations -/

/-- The variables of a loop under other names. -/
def LoopNames.rename (ρ : String → String) (names : LoopNames) : LoopNames where
  list := ρ names.list
  item := ρ names.item
  index := ρ names.index
  status := ρ names.status

theorem LoopNames.alike_headers (names : LoopNames) (here there : Location) :
    List.Forall₂ (Header.Alike ρ) (names.headers here) ((names.rename ρ).headers there) :=
  .cons ⟨rfl, rfl⟩ (.cons ⟨rfl, rfl⟩ .nil)

/-- Invocations that are the same up to the renaming of their variables, and locations. -/
inductive Invocation.Alike (ρ : String → String) : Invocation → Invocation → Prop where
  | inert : Alike ρ .inert .inert
  | use {name : String} {source other : Written} (h : source.Alike ρ other) :
      Alike ρ (.use name source) (.use (ρ name) other)
  | set {name : String} {source other : Written} (h : source.Alike ρ other) :
      Alike ρ (.set name source) (.set (ρ name) other)
  | test {name : String} {named : Bool} {source other : Written} (h : source.Alike ρ other) :
      Alike ρ (.test name named source) (.test (ρ name) named other)
  | list {names : LoopNames} {source other : Written} (h : source.Alike ρ other) :
      Alike ρ (.list names source) (.list (names.rename ρ) other)
  | repeated {names : LoopNames} {source other : Written} (h : source.Alike ρ other) :
      Alike ρ (.repeated names source) (.repeated (names.rename ρ) other)
  | template {name : String} {parameters : List String} {here there : Location} :
      Alike ρ (.template name parameters here) (.template (ρ name) (parameters.map ρ) there)
  | call {procedure arguments : String} {source other : Written} (h : source.Alike ρ other) :
      Alike ρ (.call procedure arguments source) (.call (ρ procedure) (ρ arguments) other)
  | insertion {function name : String} {source other : Written} (h : source.Alike ρ other) :
      Alike ρ (.insertion function name source) (.insertion function (ρ name) other)
  | text {name : String} {source other : Written} (h : source.Alike ρ other) :
      Alike ρ (.text name source) (.text (ρ name) other)
  | attr {target? : Option String} {name : String} {source other : Written}
      (h : source.Alike ρ other) :
      Alike ρ (.attr target? name source) (.attr target? (ρ name) other)
  | element {name : String} {source other : Written} (h : source.Alike ρ other) :
      Alike ρ (.element name source) (.element (ρ name) other)
  | unwrap : Alike ρ (.unwrap none) (.unwrap none)
  | unwrapIf {name : String} {source other : Written} (h : source.Alike ρ other) :
      Alike ρ (.unwrap (some (name, source))) (.unwrap (some (ρ name, other)))

namespace Invocation

/-! Invocations make no names at their hooks. -/

theorem symbolsAfter_elementOpening (i : Invocation) (n : Nat) :
    (i.elementOpening filters).symbolsAfter n = n := by
  cases i with
  | test name named source => cases named <;> rfl
  | unwrap condition? => cases condition? <;> rfl
  | _ => rfl

theorem symbolsAfter_attributeScript (i : Invocation) (n : Nat) :
    (i.attributeScript filters).symbolsAfter n = n := by
  cases i with
  | attr target? name source => cases target? <;> rfl
  | _ => rfl

theorem symbolsAfter_contentOpening (i : Invocation) (n : Nat) :
    (i.contentOpening filters).symbolsAfter n = n := by
  cases i <;> rfl

namespace Alike

variable {i other : Invocation}

theorem of_eq {other' : Invocation} (h : i.Alike ρ other) (heq : other = other') :
    i.Alike ρ other' :=
  heq ▸ h

theorem bindingOf {source source' : Written} (h : source.Alike ρ source')
    (hfilters : filters ⊆ .builtin) (placement? : Option Placement) (name : String) :
    Header.Alike ρ (bindingOf filters placement? name source)
      (Invocation.bindingOf filters placement? (ρ name) source') :=
  Header.alike_binding rfl (h.root hfilters placement?)

/-- A check writes nothing, and a binding in the rest of the document follows it. -/
theorem checked {source source' : Written} {name : String} {value value' : Term}
    (hvalue : value.rename ρ = value') :
    Command.AllAlike ρ
      (Script.statement (source.check filters none)
        (.statement (.bindGlobal name value source.location) .done)).commands
      (Script.statement (source'.check filters none)
        (.statement (.bindGlobal (ρ name) value' source'.location) .done)).commands := by
  subst hvalue
  exact .statement .nil (.statement rfl .nil)

theorem elementOpening (h : i.Alike ρ other) (hfilters : filters ⊆ .builtin) :
    Command.AllAlike ρ (i.elementOpening filters).commands
      (other.elementOpening filters).commands := by
  cases h with
  | use h => exact checked (h.insertion hfilters "use")
  | set h => exact checked (h.root hfilters none)
  | @test name named source other h =>
    cases named with
    | true => exact checked (h.root hfilters none)
    | false => exact .nil
  | _ => exact .nil

theorem elementHeaders (h : i.Alike ρ other) (hfilters : filters ⊆ .builtin) (tag : String) :
    List.Forall₂ (Header.Alike ρ) (i.elementHeaders filters tag)
      (other.elementHeaders filters tag) := by
  cases h with
  | @test name named source other h =>
    have hcondition : Header.Alike ρ (.conditional name true) (.conditional (ρ name) true) :=
      Header.alike_conditional name true
    cases named with
    | true => exact .cons hcondition .nil
    | false => exact .cons (bindingOf h hfilters none name) (.cons hcondition .nil)
  | @list names source other h =>
    exact .cons (bindingOf h hfilters none names.list)
      (.cons (Header.alike_conditional names.list true) .nil)
  | @repeated names source other h =>
    exact .cons (bindingOf h hfilters none names.list) (names.alike_headers _ _)
  | template => exact .cons ⟨rfl, rfl⟩ .nil
  | element h =>
    refine .cons (Header.alike_binding rfl ?_) .nil
    simp only [Term.rename, h.root hfilters]
  | unwrapIf h => exact .cons (bindingOf h hfilters none _) .nil
  | _ => exact .nil

theorem attributeScript (h : i.Alike ρ other) (hfilters : filters ⊆ .builtin) :
    Command.AllAlike ρ (i.attributeScript filters).commands
      (other.attributeScript filters).commands := by
  cases h with
  | @attr target? name source other h =>
    cases target? with
    | some target =>
      refine .statement .nil (.block (bindingOf h hfilters _ name) ?_ .nil)
      exact .block (Header.alike_conditional name true)
        (.statement rfl (.statement rfl (.statement rfl .nil))) .nil
    | none =>
      refine .statement .nil (.block (Header.alike_binding rfl ?_) (.statement rfl .nil) .nil)
      simp only [Term.rename, Term.renameItems, h.root hfilters]
  | _ => exact .nil

theorem contentOpening (h : i.Alike ρ other) (hfilters : filters ⊆ .builtin) :
    Command.AllAlike ρ (i.contentOpening filters).commands
      (other.contentOpening filters).commands := by
  cases h with
  | @call procedure arguments source other h =>
    refine .statement .nil (.block (bindingOf h hfilters none procedure) ?_ .nil)
    refine .block (Header.alike_binding rfl ?_) (.statement rfl .nil) .nil
    rw [Term.rename, h.options hfilters]
  | insertion h =>
    refine .statement .nil (.block (Header.alike_binding rfl ?_) (.statement rfl .nil) .nil)
    exact h.insertion hfilters _
  | @text name source other h =>
    refine .statement .nil (.statement .nil ?_)
    exact .block (bindingOf h hfilters (some .text) name) (.statement rfl .nil) .nil
  | _ => exact .nil

theorem contentHeaders (h : i.Alike ρ other) :
    List.Forall₂ (Header.Alike ρ) i.contentHeaders other.contentHeaders := by
  cases h with
  | list h => exact LoopNames.alike_headers _ _ _
  | _ => exact .nil

end Alike

end Invocation

end Stencil
