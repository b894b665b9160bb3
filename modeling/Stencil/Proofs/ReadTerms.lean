import Stencil.Expression.Fragment
import Stencil.Proofs.Grammar

/-!
# What the reader of expressions builds

The terms that the grammar derives are put together from smaller ones. So a property that goes over
from the parts to the whole, for each form of the grammar, holds of all terms that are read: of the
root and the options of an expression, and of the expressions in a text.

## Main definitions

* `Term.Inherited`: a property that goes over from the parts to the whole

## Main results

* `Derives.of_inherited`: an inherited property holds of each derived term
* `Expression.forall_of_parse`: the root and the options of an expression that is read
* `Fragment.forall_of_parse`: the expressions in a text
-/

namespace Stencil

variable {tokens : List Token}

/-- A property of terms that goes over from the parts to the whole, for each form that the grammar
has. -/
structure Term.Inherited (P : Term → Prop) : Prop where
  null : P .null
  text : ∀ value, P (.text value)
  number : ∀ value, P (.number value)
  boolean : ∀ value, P (.boolean value)
  identifier : ∀ name, P (.identifier name)
  property : ∀ {target key}, P target → P key → P (.property target key)
  array : ∀ {items}, (∀ item ∈ items, P item) → P (.array items)
  negation : ∀ {operand}, P operand → P (.unary .not operand)
  binary : ∀ {op left right}, P left → P right → P (.binary op left right)
  choice : ∀ {condition yes no}, P condition → P yes → P no → P (.choice condition yes no)

variable {P : Term → Prop}

theorem Term.Inherited.of_atom? (h : Term.Inherited P) {token : Token} {t : Term}
    (ht : token.atom? = some t) : P t := by
  cases token with
  | text value => exact Option.some.inj ht ▸ h.text value
  | number value => exact Option.some.inj ht ▸ h.number value
  | identifier name => exact Option.some.inj ht ▸ h.identifier name
  | boolean value => exact Option.some.inj ht ▸ h.boolean value
  | null => exact Option.some.inj ht ▸ h.null
  | _ => cases ht

/-- An inherited property holds of each derived term. -/
theorem Derives.of_inherited (h : Term.Inherited P) {k : Category} {n : Nat} {t : Term}
    (ht : Derives k n tokens t) : P t := by
  -- The array that stands for items is made of smaller ones, so that its items are kept in mind.
  suffices hboth : P t ∧ ∀ items, k = .items → t = .array items → ∀ item ∈ items, P item from
    hboth.1
  induction ht with
  | term _ ih | conjunction _ ih | comparison _ ih | unary _ ih | access _ ih | primary _ ih
  | paren _ ih | array _ ih => exact ⟨ih.1, nofun⟩
  | choice _ _ _ ihcondition ihyes ihno => exact ⟨h.choice ihcondition.1 ihyes.1 ihno.1, nofun⟩
  | or _ _ ihleft ihright | and _ _ ihleft ihright | compare _ _ _ ihleft ihright =>
    exact ⟨h.binary ihleft.1 ihright.1, nofun⟩
  | not _ ih => exact ⟨h.negation ih.1, nofun⟩
  | dotName name _ ih | dotNumber value _ ih => exact ⟨h.property ih.1 (h.text _), nofun⟩
  | bracket _ _ ih ihkey => exact ⟨h.property ih.1 ihkey.1, nofun⟩
  | atom ht => exact ⟨h.of_atom? ht, nofun⟩
  | noItems => exact ⟨h.array nofun, nofun⟩
  | item _ ih =>
    have hitems := List.forall_mem_singleton.2 ih.1
    exact ⟨h.array hitems, fun items _ heq => Term.array.inj heq ▸ hitems⟩
  | comma _ _ ih ihitems =>
    have hitems := List.forall_mem_cons.2 ⟨ih.1, ihitems.2 _ rfl rfl⟩
    exact ⟨h.array hitems, fun items _ heq => Term.array.inj heq ▸ hitems⟩

theorem Entries.mem_of_mem_ofList {α : Type} {entries : List (String × α)} {entry : String × α}
    (h : entry ∈ ofList entries) : entry ∈ entries := by
  have hfold : ∀ sorted : Entries α,
      entry ∈ entries.foldl (fun sorted first => sorted.insert first.1 first.2) sorted →
        entry ∈ sorted ∨ entry ∈ entries := by
    clear h
    induction entries with
    | nil => exact fun sorted hmem => .inl hmem
    | cons first rest ih =>
      intro sorted hmem
      rcases ih _ hmem with hsorted | hrest
      · rcases Entries.mem_insert hsorted with rfl | hsorted
        · exact .inr List.mem_cons_self
        · exact .inl hsorted
      · exact .inr (List.mem_cons_of_mem _ hrest)
  exact (hfold [] h).resolve_left List.not_mem_nil

namespace Expression

/-- The root and the options of an expression have the property `P`. -/
def Forall (P : Term → Prop) (e : Expression) : Prop :=
  P e.root ∧ ∀ option ∈ e.options, P option.2

theorem of_derivesOption {option : String × Term} (h : DerivesOption tokens option)
    (hnull : P .null) (hterm : ∀ tokens t, Derives .term maxNesting tokens t → P t) :
    P option.2 := by
  cases h with
  | bare => exact hnull
  | valued _ hvalue => exact hterm _ _ hvalue

theorem forall_mem_of_derivesOptions {given : List (String × Term)}
    (h : DerivesOptions tokens given) (hnull : P .null)
    (hterm : ∀ tokens t, Derives .term maxNesting tokens t → P t) :
    ∀ option ∈ given, P option.2 := by
  induction h with
  | single h => exact List.forall_mem_singleton.2 (of_derivesOption h hnull hterm)
  | comma h _ ih => exact List.forall_mem_cons.2 ⟨of_derivesOption h hnull hterm, ih⟩

/-- What holds of null and of each derived term holds of the terms of a derived expression. -/
theorem Derived.forall {e : Expression} (h : Derived tokens e) (hnull : P .null)
    (hterm : ∀ tokens t, Derives .term maxNesting tokens t → P t) :
    e.Forall P := by
  obtain ⟨root, options⟩ := e
  obtain ⟨first, second, given, -, hroot, htail, hsorted, hfind⟩ := h
  have hgiven : ∀ option ∈ given, P option.2 := by
    cases htail with
    | missing => exact List.forall_mem_nil _
    | options h => exact forall_mem_of_derivesOptions h hnull hterm
  have hoptions : options = .ofList given :=
    hsorted.eq_of_find?_eq (Entries.sorted_ofList given) fun name =>
      (hfind name).trans (Entries.find?_ofList given name).symm
  constructor
  · cases hroot with
    | missing => exact hnull
    | term h => exact hterm _ _ h
  · intro option hoption
    exact hgiven option (Entries.mem_of_mem_ofList (hoptions ▸ hoption))

/-- An inherited property holds of the root and of the options of an expression that is read. -/
theorem forall_of_parse (h : Term.Inherited P) {here : Location} {body : List Char}
    {e : Expression} (hread : parse here body = .ok e) : e.Forall P := by
  obtain ⟨tokens, -, hread⟩ := exists_of_bind_eq_ok hread
  exact (derived_of_ofTokens hread).forall h.null fun _ _ ht => ht.of_inherited h

end Expression

namespace Fragment

/-- An inherited property holds of the expressions in a text. -/
theorem forall_of_parse (h : Term.Inherited P) {here : Location} {text : String}
    {fragments : List Fragment} (hread : parse here text = .ok fragments) :
    ∀ e place, .expression e place ∈ fragments → e.Forall P := by
  have hflush (found : List Char) {fragments : List Fragment}
      (hall : ∀ e place, .expression e place ∈ fragments → e.Forall P) :
      ∀ e place, .expression e place ∈ flush found fragments → e.Forall P := by
    intro e place he
    unfold flush at he
    split at he
    · exact hall e place he
    · exact hall e place (by simpa using he)
  unfold parse at hread
  generalize text.toList = input at hread
  generalize ([] : List Char) = found at hread
  fun_induction parseAfter found here input generalizing fragments with
  | case1 =>
    obtain rfl := Except.ok.inj hread
    exact hflush _ nofun
  | case2 found here rest ih => exact ih hread
  | case3 => cases hread
  | case4 => cases hread
  | case5 => cases hread
  | case6 found here rest body after hbody parsed hparsed fragments' hrest ih =>
    obtain rfl := Except.ok.inj hread
    refine hflush _ fun e place he => ?_
    rcases List.mem_cons.1 he with heq | he
    · obtain ⟨rfl, -⟩ := Fragment.expression.inj heq
      exact Expression.forall_of_parse h hparsed
    · exact ih hrest e place he
  | case7 found here c rest hescape hopen ih => exact ih hread

end Fragment

end Stencil
