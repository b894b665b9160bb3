import Stencil.Proofs.DisciplinedWalk
import Stencil.Proofs.RenamedInvocations

/-!
# Elements under other names

Two elements that differ in the order of their directives are written by the same commands, up to
the names that the directives are given, if in the end their invocations are the same up to these
names.

## Main definitions

* `Effect.rename`: an effect under other names
* `Markup.Tag.Like`: tags that are the same up to directives and locations
* `Markup.Tag.afterDirectives`, `Markup.Tag.afterStart`: how many names are made in an element

## Main results

* `Markup.alike_draftElement`: an element with the invocations of its directives
* `Markup.symbolsAfter_draftElement`: how many names are made for an element
-/

namespace Stencil

open Draft

variable {ρ : String → String} {filters : Pipeline}

/-! ### Effects -/

/-- Whether tags are left out, under another name for the variable that says so. -/
def TagSkip.rename (ρ : String → String) : TagSkip → TagSkip
  | .when name => .when (ρ name)
  | skip => skip

/-- An effect under other names for its variables. -/
def Effect.rename (ρ : String → String) (effect : Effect) : Effect :=
  { effect with skip := effect.skip.rename ρ, tagVariable := effect.tagVariable.map ρ }

theorem TagSkip.rename_or (skip other : TagSkip) :
    (skip.or other).rename ρ = (skip.rename ρ).or (other.rename ρ) := by
  cases skip <;> cases other <;> rfl

theorem TagSkip.rename_eq_always {skip : TagSkip} : skip.rename ρ = .always ↔ skip = .always := by
  cases skip <;> simp [rename]

theorem Effect.rename_and (effect other : Effect) :
    (effect.and other).rename ρ = (effect.rename ρ).and (other.rename ρ) := by
  obtain ⟨skip, tagVariable, overrides, replaces⟩ := effect
  simp only [rename, and, TagSkip.rename_or]
  cases tagVariable <;> rfl

theorem Invocation.Alike.effect {i other : Invocation} (h : i.Alike ρ other) :
    other.effect = i.effect.rename ρ := by
  cases h with
  | @attr target? name source other h => cases target? <;> rfl
  | _ => rfl

theorem Effect.all_of_alike {invocations others : List Invocation}
    (h : List.Forall₂ (Invocation.Alike ρ) invocations others) :
    Effect.all (others.map Invocation.effect) =
      (Effect.all (invocations.map Invocation.effect)).rename ρ := by
  induction h with
  | nil => rfl
  | cons hfirst _ ih =>
    simp only [Effect.all, List.map_cons, List.foldr_cons] at ih ⊢
    rw [hfirst.effect, ih, Effect.rename_and]

/-! ### Names made around a draft -/

namespace Draft

variable {n : Nat} {d : Draft Unit}

theorem symbolsAfter_foldr_within (headers : List Header) :
    ((headers.foldr within d).script n).symbolsAfter n = (d.script n).symbolsAfter n := by
  induction headers with
  | nil => rfl
  | cons header rest ih => exact ih

theorem symbolsAfter_around {opening : Script} (h : opening.symbolsAfter n = n)
    (headers : List Header) :
    ((around opening headers d).script n).symbolsAfter n = (d.script n).symbolsAfter n := by
  rw [around, script_bind, Script.symbolsAfter_append, script_write, h]
  exact symbolsAfter_foldr_within headers

/-- Items each of which writes a script that makes no names and then opens blocks. -/
theorem symbolsAfter_aroundAll {γ : Type} {opening : γ → Script} {headers : γ → List Header}
    (hopening : ∀ a, (opening a).symbolsAfter n = n) (items : List γ) :
    ((items.foldr (fun a => around (opening a) (headers a)) d).script n).symbolsAfter n =
      (d.script n).symbolsAfter n := by
  induction items with
  | nil => rfl
  | cons a rest ih =>
    rw [List.foldr_cons, symbolsAfter_around (hopening a)]
    exact ih

end Draft

namespace Invocation

variable {n : Nat} {d d' : Draft Unit} {invocations others : List Invocation}

theorem alike_aroundElement (hfilters : filters ⊆ .builtin) (tag : String)
    (h : List.Forall₂ (Alike ρ) invocations others) (hd : Draft.Alike ρ n d d') :
    Draft.Alike ρ n (aroundElement filters tag invocations d)
      (aroundElement filters tag others d') := by
  induction h with
  | nil => exact hd
  | cons hfirst _ ih =>
    exact .around (symbolsAfter_elementOpening _ n) (symbolsAfter_elementOpening _ n)
      (hfirst.elementOpening hfilters) (hfirst.elementHeaders hfilters tag) ih

theorem alike_aroundContent (hfilters : filters ⊆ .builtin)
    (h : List.Forall₂ (Alike ρ) invocations others) (hd : Draft.Alike ρ n d d') :
    Draft.Alike ρ n (aroundContent filters invocations d) (aroundContent filters others d') := by
  induction h with
  | nil => exact hd
  | cons hfirst _ ih =>
    exact .around (symbolsAfter_contentOpening _ n) (symbolsAfter_contentOpening _ n)
      (hfirst.contentOpening hfilters) hfirst.contentHeaders ih

theorem alike_attributeScripts (hfilters : filters ⊆ .builtin)
    (h : List.Forall₂ (Alike ρ) invocations others) :
    Draft.Alike ρ n (invocations.forM fun i => .write (i.attributeScript filters))
      (others.forM fun i => .write (i.attributeScript filters)) := by
  induction h with
  | nil => exact .done
  | cons hfirst _ ih =>
    simp only [List.forM_eq_forM, List.forM_cons] at ih ⊢
    exact (Draft.Alike.write (symbolsAfter_attributeScript _ n) (symbolsAfter_attributeScript _ n)
      (hfirst.attributeScript hfilters)).bind_silent (symbolsAfter_attributeScript _ n) ih

theorem symbolsAfter_attributeScripts (n : Nat) (invocations : List Invocation) :
    ((invocations.forM fun i => Draft.write (i.attributeScript filters)).script n).symbolsAfter n =
      n := by
  induction invocations with
  | nil => rfl
  | cons first rest ih =>
    simp only [List.forM_eq_forM, List.forM_cons] at ih ⊢
    rw [script_bind, Script.symbolsAfter_append, script_write, symbolsAfter_attributeScript]
    exact ih

end Invocation

/-! ### Elements -/

namespace Markup

namespace Tag

/-- The attributes that are written in a start tag. -/
def keptAttributes (registry : Registry) (tag : Tag) (effect : Effect) : List Attribute :=
  tag.attributes.filter fun attr => isWritten registry attr && !effect.overrides attr.name

/-- Tags that are the same up to directives and locations. -/
structure Like (registry : Registry) (tag other : Tag) : Prop where
  name : other.name = tag.name
  selfClosing : other.selfClosing = tag.selfClosing
  hasEndTag : other.hasEndTag = tag.hasEndTag
  keptAttributes : ∀ effect, (other.keptAttributes registry effect).map Attribute.unplaced =
    (tag.keptAttributes registry effect).map Attribute.unplaced

/-- Whether the tags are left out, with certain directives on the element. -/
def skipFor (tag : Tag) (invocations : List Invocation) : TagSkip :=
  if isBareElement tag.name then .always else (Effect.all (invocations.map Invocation.effect)).skip

/-- The number of names made after the start tag, with certain directives on the element. -/
def afterStartFor (filters : Pipeline) (registry : Registry) (tag : Tag)
    (invocations : List Invocation) (n : Nat) : Nat :=
  if tag.skipFor invocations = .always then n
  else
    let effect := Effect.all (invocations.map Invocation.effect)
    (((tag.keptAttributes registry effect).forM (Attribute.draft filters)).script n).symbolsAfter n

end Tag

section

variable {registry : Registry} {tag other : Tag} {n : Nat} {effect : Effect} {skip : TagSkip}
  {invocations others : List Invocation} {content content' : Draft Unit}

theorem symbolsAfter_draftTagName (name : String) (effect : Effect) (n : Nat) :
    ((draftTagName name effect).script n).symbolsAfter n = n := by
  unfold draftTagName
  cases effect.tagVariable <;> rfl

theorem alike_draftTagName (name : String) (effect : Effect) :
    Alike ρ n (draftTagName name effect) (draftTagName name (effect.rename ρ)) := by
  simp only [draftTagName, Effect.rename]
  cases effect.tagVariable with
  | none => exact .text name
  | some held => exact .outVariable held

theorem alike_skipHeaders (skip : TagSkip) :
    List.Forall₂ (Header.Alike ρ) (skipHeaders skip) (skipHeaders (skip.rename ρ)) := by
  cases skip with
  | when name => exact .cons (Header.alike_conditional name false) .nil
  | _ => exact .nil

theorem alike_draftStartTag (hfilters : filters ⊆ .builtin) (htag : tag.Like registry other)
    (hnames : ∀ attr ∈ tag.attributes, ∀ name ∈ attr.names, ρ name = name)
    (hinvocations : List.Forall₂ (Invocation.Alike ρ) invocations others)
    (hkeeps : Keeps ρ n ((tag.keptAttributes registry effect).forM (Attribute.draft filters))) :
    Alike ρ n (draftStartTag filters registry tag invocations effect skip)
      (draftStartTag filters registry other others (effect.rename ρ) (skip.rename ρ)) := by
  have hattributes : Unmoved ρ ((tag.keptAttributes registry effect).forM (Attribute.draft filters))
      ((other.keptAttributes registry effect).forM (Attribute.draft filters)) := by
    refine .forM (htag.keptAttributes effect) fun attr hattr attr' hsame => ?_
    exact Attribute.unmoved_draft hfilters hsame (hnames attr (List.mem_filter.1 hattr).1)
  unfold draftStartTag
  rw [htag.name, htag.selfClosing]
  -- Of all in the tag only the attributes make names.
  refine .around rfl rfl .nil (alike_skipHeaders skip) ?_
  refine (Alike.text "<").bind_silent rfl ?_
  refine (alike_draftTagName tag.name effect).bind_silent (symbolsAfter_draftTagName _ _ _) ?_
  refine (hattributes n hkeeps).bind ?_
  exact (Invocation.alike_attributeScripts hfilters hinvocations).bind_silent
    (Invocation.symbolsAfter_attributeScripts _ _) (.text _)

theorem alike_draftEndTag (htag : tag.Like registry other) (effect : Effect) (skip : TagSkip) :
    Alike ρ n (draftEndTag tag effect skip)
      (draftEndTag other (effect.rename ρ) (skip.rename ρ)) := by
  unfold draftEndTag
  rw [htag.name]
  refine .around rfl rfl .nil (alike_skipHeaders skip) ?_
  refine (Alike.text "</").bind_silent rfl ?_
  exact (alike_draftTagName tag.name effect).bind_silent (symbolsAfter_draftTagName _ _ _)
    (.text ">")

theorem symbolsAfter_draftStartTag :
    ((draftStartTag filters registry tag invocations effect skip).script n).symbolsAfter n =
      (((tag.keptAttributes registry effect).forM (Attribute.draft filters)).script
        n).symbolsAfter n := by
  have hopening : Script.done.symbolsAfter n = n := rfl
  rw [draftStartTag, symbolsAfter_around hopening]
  simp only [script_bind, Script.symbolsAfter_append, symbolsAfter_draftTagName, script_say,
    Script.symbolsAfter, Statement.symbolsAfter, Invocation.symbolsAfter_attributeScripts]
  rfl

/-- The script of the start tag, if it is not left out. -/
def draftOpening (filters : Pipeline) (registry : Registry) (tag : Tag)
    (invocations : List Invocation) : Draft Unit :=
  if tag.skipFor invocations ≠ .always then
    draftStartTag filters registry tag invocations
      (Effect.all (invocations.map Invocation.effect)) (tag.skipFor invocations)
  else pure ()

/-- The script of the end tag, if there is one that is not left out. -/
def draftClosing (tag : Tag) (invocations : List Invocation) : Draft Unit :=
  if tag.skipFor invocations ≠ .always ∧ tag.hasEndTag ∧ !tag.selfClosing then
    draftEndTag tag (Effect.all (invocations.map Invocation.effect)) (tag.skipFor invocations)
  else pure ()

theorem draftTags_eq (content : Draft Unit) :
    draftTags filters registry tag invocations content = (do
      draftOpening filters registry tag invocations
      Invocation.aroundContent filters invocations
        (if (Effect.all (invocations.map Invocation.effect)).replaces then pure () else content)
      draftClosing tag invocations) := rfl

theorem symbolsAfter_draftOpening :
    ((draftOpening filters registry tag invocations).script n).symbolsAfter n =
      tag.afterStartFor filters registry invocations n := by
  unfold draftOpening Tag.afterStartFor
  by_cases hskip : tag.skipFor invocations = .always
  · rw [if_neg (not_not_intro hskip), if_pos hskip]
    rfl
  · rw [if_pos hskip, if_neg hskip, symbolsAfter_draftStartTag]

theorem symbolsAfter_draftClosing (n : Nat) :
    ((draftClosing tag invocations).script n).symbolsAfter n = n := by
  unfold draftClosing
  split
  · have hopening : Script.done.symbolsAfter n = n := rfl
    rw [draftEndTag, symbolsAfter_around hopening]
    simp only [script_bind, Script.symbolsAfter_append, symbolsAfter_draftTagName, script_say,
      Script.symbolsAfter, Statement.symbolsAfter]
  · rfl

theorem skipFor_of_alike (htag : tag.Like registry other)
    (hinvocations : List.Forall₂ (Invocation.Alike ρ) invocations others) :
    other.skipFor others = (tag.skipFor invocations).rename ρ := by
  unfold Tag.skipFor
  rw [htag.name, Effect.all_of_alike hinvocations]
  split <;> rfl

theorem alike_draftOpening (hfilters : filters ⊆ .builtin) (htag : tag.Like registry other)
    (hnames : ∀ attr ∈ tag.attributes, ∀ name ∈ attr.names, ρ name = name)
    (hinvocations : List.Forall₂ (Invocation.Alike ρ) invocations others)
    (hkeeps : ∀ k, n ≤ k → k < tag.afterStartFor filters registry invocations n →
      ρ (Session.symbol k) = Session.symbol k) :
    Alike ρ n (draftOpening filters registry tag invocations)
      (draftOpening filters registry other others) := by
  unfold draftOpening
  -- A tag that is left out in all cases is so under every name for the condition.
  rw [skipFor_of_alike htag hinvocations, Effect.all_of_alike hinvocations]
  by_cases hskip : tag.skipFor invocations = .always
  · rw [if_neg (not_not_intro hskip), if_neg (not_not_intro (TagSkip.rename_eq_always.2 hskip))]
    exact .done
  · rw [if_pos hskip, if_pos fun heq => hskip (TagSkip.rename_eq_always.1 heq)]
    rw [Tag.afterStartFor, if_neg hskip] at hkeeps
    exact alike_draftStartTag hfilters htag hnames hinvocations hkeeps

theorem alike_draftClosing (htag : tag.Like registry other)
    (hinvocations : List.Forall₂ (Invocation.Alike ρ) invocations others) :
    Alike ρ n (draftClosing tag invocations) (draftClosing other others) := by
  unfold draftClosing
  rw [skipFor_of_alike htag hinvocations, Effect.all_of_alike hinvocations, htag.hasEndTag,
    htag.selfClosing]
  simp only [ne_eq, TagSkip.rename_eq_always]
  split
  · exact alike_draftEndTag htag _ _
  · exact .done

/-- An element inside the blocks around it. The names made in the start tag have to be kept, and the
contents to be alike if they are written. -/
theorem alike_draftTags (hfilters : filters ⊆ .builtin) (htag : tag.Like registry other)
    (hnames : ∀ attr ∈ tag.attributes, ∀ name ∈ attr.names, ρ name = name)
    (hinvocations : List.Forall₂ (Invocation.Alike ρ) invocations others)
    (hkeeps : ∀ k, n ≤ k → k < tag.afterStartFor filters registry invocations n →
      ρ (Session.symbol k) = Session.symbol k)
    (hcontent : (Effect.all (invocations.map Invocation.effect)).replaces = false →
      Alike ρ (tag.afterStartFor filters registry invocations n) content content') :
    Alike ρ n (draftTags filters registry tag invocations content)
      (draftTags filters registry other others content') := by
  have hreplaces : (Effect.all (others.map Invocation.effect)).replaces =
      (Effect.all (invocations.map Invocation.effect)).replaces := by
    rw [Effect.all_of_alike hinvocations]
    rfl
  rw [draftTags_eq, draftTags_eq, hreplaces]
  refine (alike_draftOpening hfilters htag hnames hinvocations hkeeps).bind ?_
  rw [symbolsAfter_draftOpening]
  refine (Invocation.alike_aroundContent hfilters hinvocations ?_).bind
    (alike_draftClosing htag hinvocations)
  split
  · exact .done
  · next hnot => exact hcontent (Bool.eq_false_iff.2 hnot)

/-- The names made for an element: those in the start tag, then those of the content if it is
written. -/
theorem symbolsAfter_draftTags (content : Draft Unit) :
    ((draftTags filters registry tag invocations content).script n).symbolsAfter n =
      if (Effect.all (invocations.map Invocation.effect)).replaces then
        tag.afterStartFor filters registry invocations n
      else
        (content.script (tag.afterStartFor filters registry invocations n)).symbolsAfter
          (tag.afterStartFor filters registry invocations n) := by
  have hcontent (d : Draft Unit) (n : Nat) :
      ((Invocation.aroundContent filters invocations d).script n).symbolsAfter n =
        (d.script n).symbolsAfter n :=
    symbolsAfter_aroundAll (fun i => i.symbolsAfter_contentOpening n) invocations
  rw [draftTags_eq, script_bind, Script.symbolsAfter_append, symbolsAfter_draftOpening, script_bind,
    Script.symbolsAfter_append, symbolsAfter_draftClosing, hcontent]
  split <;> rfl

end

namespace Tag

/-- The number of names made after the directives of a tag, before which `n` were made. -/
def afterDirectives (registry : Registry) (tag : Tag) (n : Nat) : Nat :=
  ((draftInvocations registry tag.attributes).script n).symbolsAfter n

/-- The invocations of the directives of a tag, in their order. -/
def invocations (registry : Registry) (tag : Tag) (n : Nat) : List Invocation :=
  (Priority.sort (·.2) ((draftInvocations registry tag.attributes).value n)).map (·.1)

/-- The number of names made after the start tag. -/
def afterStart (filters : Pipeline) (registry : Registry) (tag : Tag) (n : Nat) : Nat :=
  tag.afterStartFor filters registry (tag.invocations registry n) (tag.afterDirectives registry n)

/-- Whether the content is not written. -/
def replaces (registry : Registry) (tag : Tag) (n : Nat) : Bool :=
  (Effect.all ((tag.invocations registry n).map Invocation.effect)).replaces

end Tag

variable {registry : Registry} {tag other : Tag} {n : Nat} {content content' : Draft Unit}

/-- The script of an element: its directives, then the element inside their blocks. -/
theorem script_draftElement (content : Draft Unit) (n : Nat) :
    (draftElement filters registry tag content).script n =
      (draftInvocations registry tag.attributes).script n ++
        (around .done (if isRawTextElement tag.name then [.rawText] else [])
          (Invocation.aroundElement filters tag.name (tag.invocations registry n)
            (draftTags filters registry tag (tag.invocations registry n) content))).script
              (tag.afterDirectives registry n) := rfl

/-- An element with its directives. The names made for the directives may differ. -/
theorem alike_draftElement (hfilters : filters ⊆ .builtin) (htag : tag.Like registry other)
    (hnames : ∀ attr ∈ tag.attributes, ∀ name ∈ attr.names, ρ name = name)
    (hdirectives : other.afterDirectives registry n = tag.afterDirectives registry n)
    (hinvocations : List.Forall₂ (Invocation.Alike ρ) (tag.invocations registry n)
      (other.invocations registry n))
    (hkeeps : ∀ k, tag.afterDirectives registry n ≤ k → k < tag.afterStart filters registry n →
      ρ (Session.symbol k) = Session.symbol k)
    (hcontent : tag.replaces registry n = false →
      Alike ρ (tag.afterStart filters registry n) content content') :
    Alike ρ n (draftElement filters registry tag content)
      (draftElement filters registry other content') := by
  have hraw : List.Forall₂ (Header.Alike ρ) (if isRawTextElement tag.name then [.rawText] else [])
      (if isRawTextElement tag.name then [.rawText] else []) := by
    split
    · exact .cons ⟨rfl, rfl⟩ .nil
    · exact .nil
  have hinside := Invocation.alike_aroundElement hfilters tag.name hinvocations
    (alike_draftTags hfilters htag hnames hinvocations hkeeps hcontent)
  have hbody : Alike ρ (tag.afterDirectives registry n) (around .done _ _) (around .done _ _) :=
    .around rfl rfl .nil hraw hinside
  -- The directives come first; they take names and write nothing.
  constructor
  · rw [script_draftElement, script_draftElement, Script.symbolsAfter_append,
      Script.symbolsAfter_append, htag.name]
    change Script.symbolsAfter _ (other.afterDirectives registry n) = _
    rw [hdirectives]
    exact hbody.symbols
  · rw [script_draftElement, script_draftElement, Script.commands_append, Script.commands_append,
      commands_draftInvocations, commands_draftInvocations, List.nil_append, List.nil_append,
      htag.name, hdirectives]
    exact hbody.commands

/-- The names made for an element: those of its directives, those in the start tag, and those of the
content if it is written. -/
theorem symbolsAfter_draftElement (content : Draft Unit) (n : Nat) :
    ((draftElement filters registry tag content).script n).symbolsAfter n =
      if tag.replaces registry n then tag.afterStart filters registry n
      else (content.script (tag.afterStart filters registry n)).symbolsAfter
        (tag.afterStart filters registry n) := by
  have hopening : Script.done.symbolsAfter (tag.afterDirectives registry n) =
      tag.afterDirectives registry n := rfl
  have helement (d : Draft Unit) (n : Nat) (invocations : List Invocation) :
      ((Invocation.aroundElement filters tag.name invocations d).script n).symbolsAfter n =
        (d.script n).symbolsAfter n :=
    symbolsAfter_aroundAll (fun i => i.symbolsAfter_elementOpening n) invocations
  rw [script_draftElement, Script.symbolsAfter_append]
  change Script.symbolsAfter _ (tag.afterDirectives registry n) = _
  rw [symbolsAfter_around hopening, helement, symbolsAfter_draftTags]
  rfl

theorem le_afterDirectives (registry : Registry) (tag : Tag) (n : Nat) :
    n ≤ tag.afterDirectives registry n :=
  Script.le_symbolsAfter _ n

theorem le_afterStart (filters : Pipeline) (registry : Registry) (tag : Tag) (n : Nat) :
    tag.afterDirectives registry n ≤ tag.afterStart filters registry n := by
  unfold Tag.afterStart Tag.afterStartFor
  split
  · exact Nat.le_refl _
  · exact Script.le_symbolsAfter _ _

end Markup

end Stencil
