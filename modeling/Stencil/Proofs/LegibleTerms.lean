import Stencil.Proofs.Grammar
import Stencil.Proofs.TermLevels
import Stencil.Proofs.WrittenPieces

/-!
# Texts that stand for one term

A term is legible if its text can be taken apart again: its numbers are written in digits, its names
are no keywords, and nothing is accessed that begins with a negation. Of two legible terms none is
written as the beginning of the other, unless a name, an access or a number goes on there. So a text
in which something else follows stands for one legible term at most.

## Main definitions

* `Term.Legible`: a term whose text can be taken apart
* `Term.Opening`: what the first character of a term tells
* `Term.Decodes`: no other legible term begins a text in the same way

## Main results

* `Term.base_append_inj`: terms that are neither accesses nor negations, from their parts
* `Term.decodes_of_legible`: legible terms are told apart by their texts
-/

namespace Stencil

namespace Term

variable {rest rest' : List Char}

/-! ### Legible terms -/

mutual

/-- A term whose text can be taken apart: numbers are written in digits, names are no keywords, and
no negation is accessed. -/
def Legible : Term → Prop
  | .null => True
  | .text _ => True
  | .number value => value.IsNumeral
  | .boolean _ => True
  | .identifier name => isIdentifier name = true ∧ tokenOfName name = .identifier name
  | .property target key => target.isUnary = false ∧ Legible target ∧ Legible key
  | .array items => LegibleItems items
  | .map _ => False
  | .unary operator operand => operator = .not ∧ Legible operand
  | .binary _ left right => Legible left ∧ Legible right
  | .choice condition yes no => Legible condition ∧ Legible yes ∧ Legible no
  | .call .. => False

/-- All items are legible. -/
def LegibleItems : List Term → Prop
  | [] => True
  | item :: rest => Legible item ∧ LegibleItems rest

end

theorem legible_of_mem {items : List Term} (hitems : LegibleItems items) {item : Term}
    (hitem : item ∈ items) : item.Legible := by
  induction items with
  | nil => cases hitem
  | cons other items ih =>
    rw [LegibleItems] at hitems
    rcases List.mem_cons.1 hitem with rfl | hitem
    · exact hitems.1
    · exact ih hitems.2 hitem

/-! ### Accesses -/

/-- The term at the bottom of the accesses. -/
def base : Term → Term
  | .property target _ => base target
  | t => t

/-- The keys of the accesses, in the order in which they are written. -/
def keys : Term → List Term
  | .property target key => keys target ++ [key]
  | _ => []

/-- The text of an access. -/
def keyChars (key : Term) : List Char :=
  match dotted? key with
  | some name => '.' :: name.toList
  | none => '[' :: (key.render.toList ++ [']'])

/-- The accesses of a term, one after the other. -/
def keysChars (keys : List Term) : List Char :=
  keys.flatMap keyChars

theorem toList_render_property (target key : Term) :
    (render (.property target key)).toList = target.render.toList ++ key.keyChars := by
  cases hkey : dotted? key <;> simp [render, keyChars, hkey]

theorem foldl_keys (t : Term) : t.keys.foldl property t.base = t := by
  cases t with
  | property target key => rw [keys, base, List.foldl_append, foldl_keys target]; rfl
  | _ => rfl

theorem toList_render_eq (t : Term) :
    t.render.toList = t.base.render.toList ++ keysChars t.keys := by
  cases t with
  | property target key =>
    rw [toList_render_property, toList_render_eq target, base, keys, keysChars, keysChars,
      List.flatMap_append, List.flatMap_singleton, List.append_assoc]
  | _ => exact (List.append_nil _).symm

theorem keys_base (t : Term) : t.base.keys = [] := by
  cases t with
  | property target key => exact keys_base target
  | _ => rfl

theorem legible_base {t : Term} (ht : t.Legible) : t.base.Legible := by
  cases t with
  | property target key =>
    rw [Legible] at ht
    rw [base]
    exact legible_base ht.2.1
  | _ => exact ht

theorem legible_of_mem_keys {t : Term} (ht : t.Legible) {key : Term} (hkey : key ∈ t.keys) :
    key.Legible := by
  cases t with
  | property target last =>
    rw [Legible] at ht
    rcases List.mem_append.1 hkey with hkey | hkey
    · exact legible_of_mem_keys ht.2.1 hkey
    · rw [List.mem_singleton.1 hkey]
      exact ht.2.2
  | _ => cases hkey

theorem isUnary_base {t : Term} (ht : t.Legible) (hunary : t.isUnary = false) :
    t.base.isUnary = false := by
  cases t with
  | property target key =>
    rw [Legible] at ht
    rw [base]
    exact isUnary_base ht.2.1 ht.1
  | _ => exact hunary

theorem sizeOf_base_le (t : Term) : sizeOf t.base ≤ sizeOf t := by
  cases t with
  | property target key =>
    have hbase := sizeOf_base_le target
    rw [base, Term.property.sizeOf_spec]
    omega
  | _ => exact Nat.le_refl _

theorem sizeOf_lt_of_mem_keys {t key : Term} (hkey : key ∈ t.keys) : sizeOf key < sizeOf t := by
  cases t with
  | property target last =>
    rw [Term.property.sizeOf_spec]
    rcases List.mem_append.1 hkey with hkey | hkey
    · have htarget := sizeOf_lt_of_mem_keys hkey
      omega
    · rw [List.mem_singleton.1 hkey]
      omega
  | _ => cases hkey

/-! ### First characters -/

/-- What the first character of a term tells. -/
inductive Opening where
  | name
  | text
  | number
  | bracket
  | paren
  | negation
  | other
  deriving DecidableEq

/-- What a character opens. -/
def Opening.ofChar (c : Char) : Opening :=
  if beginsName c then .name
  else if c.isDigit then .number
  else match c with
    | '\'' => .text
    | '[' => .bracket
    | '(' => .paren
    | '!' => .negation
    | _ => .other

/-- What a term opens with. -/
def opening : Term → Opening
  | .null => .name
  | .boolean _ => .name
  | .identifier _ => .name
  | .text _ => .text
  | .number _ => .number
  | .array _ => .bracket
  | .binary .. => .paren
  | .choice .. => .paren
  | .unary .. => .negation
  | .property target _ => opening target
  | .map _ => .other
  | .call .. => .other

theorem Opening.ofChar_of_beginsName {c : Char} (h : beginsName c = true) : ofChar c = .name := by
  simp only [ofChar, if_pos h]

theorem Opening.ofChar_of_isDigit {c : Char} (h : c.isDigit = true) : ofChar c = .number := by
  simp only [ofChar, beginsName_of_isDigit h, if_pos h, Bool.false_eq_true, if_false]

theorem opening_ne_other {t : Term} (ht : t.Legible) : t.opening ≠ .other := by
  cases t with
  | property target key =>
    rw [Legible] at ht
    rw [opening]
    exact opening_ne_other ht.2.1
  | map entries => rw [Legible] at ht; exact ht.elim
  | call function arguments => rw [Legible] at ht; exact ht.elim
  | _ => simp [opening]

theorem exists_opening {t : Term} (ht : t.Legible) :
    ∃ first, t.render.toList.head? = some first ∧ Opening.ofChar first = t.opening := by
  cases t with
  | null => exact ⟨'n', rfl, (by decide : Opening.ofChar 'n' = .name)⟩
  | text value =>
    have hhead : (render (.text value)).toList.head? = some '\'' := by
      rw [render, toList_quote]
      rfl
    exact ⟨'\'', hhead, (by decide : Opening.ofChar '\'' = .text)⟩
  | number value =>
    rw [Legible] at ht
    obtain ⟨n, htext, -⟩ := exists_numeral_writeNumber ht
    refine ⟨n.whole.head n.whole_ne_nil, ?_, ?_⟩
    · rw [render, ← htext, Numeral.text, List.head?_append, List.head?_eq_some_head n.whole_ne_nil]
      rfl
    · exact Opening.ofChar_of_isDigit (n.isDigit_whole _ (List.head_mem _))
  | boolean value =>
    cases value with
    | false => exact ⟨'f', rfl, (by decide : Opening.ofChar 'f' = .name)⟩
    | true => exact ⟨'t', rfl, (by decide : Opening.ofChar 't' = .name)⟩
  | identifier name =>
    rw [Legible] at ht
    obtain ⟨first, more, hname, hfirst, -⟩ := exists_of_isIdentifier ht.1
    exact ⟨first, by rw [render, hname]; rfl, Opening.ofChar_of_beginsName hfirst⟩
  | property target key =>
    rw [Legible] at ht
    obtain ⟨first, hhead, hfirst⟩ := exists_opening ht.2.1
    exact ⟨first, by rw [toList_render_property, List.head?_append, hhead]; rfl, hfirst⟩
  | array items =>
    exact ⟨'[', by simp [render], (by decide : Opening.ofChar '[' = .bracket)⟩
  | map entries => rw [Legible] at ht; exact ht.elim
  | unary operator operand =>
    rw [Legible] at ht
    obtain ⟨rfl, -⟩ := ht
    exact ⟨'!', by simp [render, UnaryOperator.symbol],
      (by decide : Opening.ofChar '!' = .negation)⟩
  | binary operator left right =>
    exact ⟨'(', by simp [render], (by decide : Opening.ofChar '(' = .paren)⟩
  | choice condition yes no =>
    exact ⟨'(', by simp [render], (by decide : Opening.ofChar '(' = .paren)⟩
  | call function arguments => rw [Legible] at ht; exact ht.elim

theorem opening_eq_of_append {t t' : Term} (ht : t.Legible) (ht' : t'.Legible)
    (h : t.render.toList ++ rest = t'.render.toList ++ rest') :
    t.opening = t'.opening := by
  obtain ⟨first, hhead, hfirst⟩ := exists_opening ht
  obtain ⟨first', hhead', hfirst'⟩ := exists_opening ht'
  have hsame := congrArg List.head? h
  rw [List.head?_append, List.head?_append, hhead, hhead'] at hsame
  rw [← hfirst, ← hfirst', Option.some.inj hsame]

/-- A term that is no access, by its first character. -/
theorem of_opening {t : Term} (ht : t.Legible) (hkeys : t.keys = []) :
    match t.opening with
    | .name => isIdentifier t.render = true ∧ (tokenOfName t.render).atom? = some t
    | .text => ∃ value, t = .text value
    | .number => ∃ value, t = .number value
    | .bracket => ∃ items, t = .array items
    | .paren => (∃ operator left right, t = .binary operator left right) ∨
        ∃ condition yes no, t = .choice condition yes no
    | .negation => ∃ operand, t = .unary .not operand
    | .other => False := by
  cases t with
  | null => exact ⟨by decide, rfl⟩
  | text value => exact ⟨value, rfl⟩
  | number value => exact ⟨value, rfl⟩
  | boolean value => cases value <;> exact ⟨by decide, rfl⟩
  | identifier name =>
    rw [Legible] at ht
    exact ⟨ht.1, by rw [render, ht.2]; rfl⟩
  | property target key => simp [keys] at hkeys
  | array items => exact ⟨items, rfl⟩
  | map entries => rw [Legible] at ht; exact ht.elim
  | unary operator operand =>
    rw [Legible] at ht
    exact ⟨operand, by rw [ht.1]⟩
  | binary operator left right => exact .inl ⟨operator, left, right, rfl⟩
  | choice condition yes no => exact .inr ⟨condition, yes, no, rfl⟩
  | call function arguments => rw [Legible] at ht; exact ht.elim

/-! ### Taking texts apart -/

/-- Whether a character goes on a term: a name, or an access. -/
def continuesTerm (c : Char) : Bool :=
  continuesName c || c = '.' || c = '['

/-- The term ends before these characters. -/
def Ends (rest : List Char) : Prop :=
  rest.head?.any continuesTerm = false

/-- No other legible term begins a text in the same way and ends there. -/
def Decodes (t : Term) : Prop :=
  ∀ ⦃t' : Term⦄ ⦃rest rest' : List Char⦄, t'.Legible → Ends rest → Ends rest' →
    t.render.toList ++ rest = t'.render.toList ++ rest' → t = t' ∧ rest = rest'

theorem ends_blank : Ends (' ' :: rest) :=
  (by decide : continuesTerm ' ' = false)

theorem ends_comma : Ends (',' :: rest) :=
  (by decide : continuesTerm ',' = false)

theorem ends_rightParen : Ends (')' :: rest) :=
  (by decide : continuesTerm ')' = false)

theorem ends_rightBracket : Ends (']' :: rest) :=
  (by decide : continuesTerm ']' = false)

theorem isIdentifier_of_dotted? {key : Term} {name : String} (h : dotted? key = some name) :
    isIdentifier name = true := by
  obtain rfl := eq_text_of_dotted? h
  rw [dotted?] at h
  split at h
  · assumption
  · cases h

theorem breaks_of_ends (h : Ends rest) : Breaks rest := by
  cases rest with
  | nil => exact ⟨rfl, nofun⟩
  | cons c rest =>
    have hc : (continuesName c || c = '.' || c = '[') = false := h
    rw [Bool.or_eq_false_iff, Bool.or_eq_false_iff, decide_eq_false_iff_not] at hc
    exact ⟨hc.1.1, fun more hmore => absurd (List.cons.inj hmore).1 hc.1.2⟩

theorem breaks_keysChars_append (keys : List Term) (h : Ends rest) :
    Breaks (keysChars keys ++ rest) := by
  cases keys with
  | nil => exact breaks_of_ends h
  | cons key keys =>
    rw [keysChars, List.flatMap_cons, List.append_assoc, keyChars]
    split
    · next name hname =>
      obtain ⟨first, more, hchars, hfirst, -⟩ :=
        exists_of_isIdentifier (isIdentifier_of_dotted? hname)
      refine ⟨(by decide : continuesName '.' = false), fun after hafter => ?_⟩
      rw [hchars] at hafter
      rw [← (List.cons.inj hafter).2]
      exact Bool.eq_false_iff.2 fun hdigit =>
        absurd hfirst (Bool.eq_false_iff.1 (beginsName_of_isDigit hdigit))
    · exact ⟨(by decide : continuesName '[' = false), fun after hafter => by cases hafter⟩

theorem exists_keyChars_eq_cons (key : Term) :
    ∃ first more, key.keyChars = first :: more ∧ continuesTerm first = true := by
  rw [keyChars]
  split
  · exact ⟨_, _, rfl, by decide⟩
  · exact ⟨_, _, rfl, by decide⟩

theorem not_ends_keysChars (key : Term) (keys : List Term) (rest : List Char) :
    ¬ Ends (keysChars (key :: keys) ++ rest) := by
  obtain ⟨first, more, hkey, hfirst⟩ := exists_keyChars_eq_cons key
  intro h
  rw [keysChars, List.flatMap_cons, hkey] at h
  exact absurd hfirst (Bool.eq_false_iff.1 h)

/-- Behind a key there is another one or the end. -/
theorem keyChars_append_inj {key key' : Term} (hkey : key.Decodes) (hkey' : key'.Legible)
    (hrest : Breaks rest) (hrest' : Breaks rest')
    (h : key.keyChars ++ rest = key'.keyChars ++ rest') : key = key' ∧ rest = rest' := by
  rw [keyChars, keyChars] at h
  cases hname : dotted? key with
  | some name =>
    cases hname' : dotted? key' with
    | some name' =>
      rw [hname, hname'] at h
      obtain ⟨rfl, hsame⟩ := name_append_inj (isIdentifier_of_dotted? hname)
        (isIdentifier_of_dotted? hname') hrest.name hrest'.name (List.cons.inj h).2
      exact ⟨(eq_text_of_dotted? hname).trans (eq_text_of_dotted? hname').symm, hsame⟩
    | none =>
      rw [hname, hname'] at h
      exact absurd (List.cons.inj h).1 (by decide)
  | none =>
    cases hname' : dotted? key' with
    | some name' =>
      rw [hname, hname'] at h
      exact absurd (List.cons.inj h).1 (by decide)
    | none =>
      rw [hname, hname'] at h
      have hinner : key.render.toList ++ ']' :: rest = key'.render.toList ++ ']' :: rest' := by
        simpa using h
      obtain ⟨hsame, hafter⟩ := hkey hkey' ends_rightBracket ends_rightBracket hinner
      exact ⟨hsame, (List.cons.inj hafter).2⟩

/-- The accesses are told apart if the keys are. -/
theorem keysChars_append_inj {keys keys' : List Term} (hkeys : ∀ key ∈ keys, key.Decodes)
    (hkeys' : ∀ key ∈ keys', key.Legible) (hrest : Ends rest) (hrest' : Ends rest')
    (h : keysChars keys ++ rest = keysChars keys' ++ rest') :
    keys = keys' ∧ rest = rest' := by
  induction keys generalizing keys' with
  | nil =>
    cases keys' with
    | nil => exact ⟨rfl, h⟩
    | cons key' keys' =>
      have hnot := not_ends_keysChars key' keys' rest'
      rw [← h] at hnot
      exact absurd hrest hnot
  | cons key keys ih =>
    cases keys' with
    | nil =>
      have hnot := not_ends_keysChars key keys rest
      rw [h] at hnot
      exact absurd hrest' hnot
    | cons key' keys' =>
      obtain ⟨hkey, hmore⟩ := List.forall_mem_cons.1 hkeys
      obtain ⟨hkey', hmore'⟩ := List.forall_mem_cons.1 hkeys'
      simp only [keysChars, List.flatMap_cons, List.append_assoc] at h
      obtain ⟨hfirst, h⟩ := keyChars_append_inj hkey hkey' (breaks_keysChars_append keys hrest)
        (breaks_keysChars_append keys' hrest') h
      obtain ⟨hothers, hsame⟩ := ih hmore hmore' h
      rw [hfirst, hothers]
      exact ⟨rfl, hsame⟩

theorem symbol_append_inj {op op' : BinaryOperator}
    (h : op.symbol.toList ++ ' ' :: rest = op'.symbol.toList ++ ' ' :: rest') :
    op = op' ∧ rest = rest' := by
  have hblank (op : BinaryOperator) : ∀ c ∈ op.symbol.toList, decide (c ≠ ' ') = true := by
    refine List.all_eq_true.1 ?_
    cases op <;> rfl
  obtain ⟨hsymbol, hrest⟩ := append_inj_of_all (hblank op) (hblank op') rfl rfl h
  refine ⟨?_, (List.cons.inj hrest).2⟩
  cases op <;> cases op' <;> first | rfl | exact absurd hsymbol (by decide)

theorem symbol_append_ne (op : BinaryOperator) (rest rest' : List Char) :
    op.symbol.toList ++ ' ' :: rest ≠ '?' :: ' ' :: rest' := by
  cases op <;> simp [BinaryOperator.symbol]

/-- The items behind the first one. -/
def itemsChars (items : List Term) : List Char :=
  items.flatMap fun item => ',' :: ' ' :: item.render.toList

theorem toList_renderItems_cons (item : Term) (items : List Term) :
    (renderItems (item :: items)).toList = item.render.toList ++ itemsChars items := by
  induction items generalizing item with
  | nil => simp [renderItems, itemsChars]
  | cons next items ih => simp [renderItems, itemsChars, ih next]

theorem itemsChars_append_inj {items items' : List Term} (hitems : ∀ item ∈ items, item.Decodes)
    (hitems' : ∀ item ∈ items', item.Legible)
    (h : itemsChars items ++ ']' :: rest = itemsChars items' ++ ']' :: rest') :
    items = items' ∧ rest = rest' := by
  have hends (items : List Term) (rest : List Char) : Ends (itemsChars items ++ ']' :: rest) := by
    cases items with
    | nil => exact ends_rightBracket
    | cons item items => exact ends_comma
  induction items generalizing items' with
  | nil =>
    cases items' with
    | nil => exact ⟨rfl, (List.cons.inj h).2⟩
    | cons item' items' => exact absurd (List.cons.inj h).1 (by decide)
  | cons item items ih =>
    cases items' with
    | nil => exact absurd (List.cons.inj h).1 (by decide)
    | cons item' items' =>
      obtain ⟨hitem, hmore⟩ := List.forall_mem_cons.1 hitems
      obtain ⟨hitem', hmore'⟩ := List.forall_mem_cons.1 hitems'
      simp only [itemsChars, List.flatMap_cons, List.append_assoc, List.cons_append,
        List.cons.injEq, true_and] at h
      obtain ⟨hfirst, h⟩ := hitem hitem' (hends items rest) (hends items' rest') h
      obtain ⟨hothers, hsame⟩ := ih hmore hmore' h
      rw [hfirst, hothers]
      exact ⟨rfl, hsame⟩

/-- A closing bracket begins no term. -/
theorem render_append_ne {t : Term} (ht : t.Legible) (rest rest' : List Char) :
    t.render.toList ++ rest ≠ ']' :: rest' := by
  obtain ⟨first, hhead, hfirst⟩ := exists_opening ht
  intro h
  have hsame := congrArg List.head? h
  rw [List.head?_append, hhead] at hsame
  rw [Option.some.inj hsame] at hfirst
  exact opening_ne_other ht (hfirst.symm.trans (by decide))

theorem renderItems_append_inj {items items' : List Term} (hitems : ∀ item ∈ items, item.Decodes)
    (hlegible : ∀ item ∈ items, item.Legible) (hitems' : ∀ item ∈ items', item.Legible)
    (h : (renderItems items).toList ++ ']' :: rest = (renderItems items').toList ++ ']' :: rest') :
    items = items' ∧ rest = rest' := by
  cases items with
  | nil =>
    cases items' with
    | nil => exact ⟨rfl, (List.cons.inj h).2⟩
    | cons item' items' =>
      rw [toList_renderItems_cons, List.append_assoc] at h
      exact absurd h.symm (render_append_ne (hitems' item' List.mem_cons_self) _ _)
  | cons item items =>
    rw [toList_renderItems_cons, List.append_assoc] at h
    cases items' with
    | nil => exact absurd h (render_append_ne (hlegible item List.mem_cons_self) _ _)
    | cons item' items' =>
      -- The first item is taken for one that stands behind a comma.
      rw [toList_renderItems_cons, List.append_assoc] at h
      refine itemsChars_append_inj hitems hitems' ?_
      simpa [itemsChars] using h

theorem toList_render_binary (op : BinaryOperator) (left right : Term) (rest : List Char) :
    (render (.binary op left right)).toList ++ rest =
      '(' :: (left.render.toList ++
        ' ' :: (op.symbol.toList ++ ' ' :: (right.render.toList ++ ')' :: rest))) := by
  simp [render]

theorem toList_render_choice (condition yes no : Term) (rest : List Char) :
    (render (.choice condition yes no)).toList ++ rest =
      '(' :: (condition.render.toList ++ ' ' :: '?' :: ' ' :: (yes.render.toList ++
        ' ' :: ':' :: ' ' :: (no.render.toList ++ ')' :: rest))) := by
  simp [render]

/-- The first term in parentheses ends before a blank. -/
theorem paren_append_inj {first first' : Term} (hfirst : first.Decodes) (hfirst' : first'.Legible)
    {more more' : List Char}
    (h : '(' :: (first.render.toList ++ ' ' :: more) =
      '(' :: (first'.render.toList ++ ' ' :: more')) : first = first' ∧ more = more' := by
  obtain ⟨hsame, hmore⟩ := hfirst hfirst' ends_blank ends_blank (List.cons.inj h).2
  exact ⟨hsame, (List.cons.inj hmore).2⟩

theorem binary_append_inj {op op' : BinaryOperator} {left right left' right' : Term}
    (hleft : left.Decodes) (hright : right.Decodes) (ht' : (binary op' left' right').Legible)
    (h : (binary op left right).render.toList ++ rest =
      (binary op' left' right').render.toList ++ rest') :
    binary op left right = binary op' left' right' ∧ rest = rest' := by
  rw [Legible] at ht'
  rw [toList_render_binary, toList_render_binary] at h
  obtain ⟨hsameLeft, hsign⟩ := paren_append_inj hleft ht'.1 h
  obtain ⟨hop, hoperand⟩ := symbol_append_inj hsign
  obtain ⟨hsameRight, hend⟩ := hright ht'.2 ends_rightParen ends_rightParen hoperand
  rw [hsameLeft, hop, hsameRight]
  exact ⟨rfl, (List.cons.inj hend).2⟩

theorem choice_append_inj {condition yes no condition' yes' no' : Term}
    (hcondition : condition.Decodes) (hyes : yes.Decodes) (hno : no.Decodes)
    (ht' : (choice condition' yes' no').Legible)
    (h : (choice condition yes no).render.toList ++ rest =
      (choice condition' yes' no').render.toList ++ rest') :
    choice condition yes no = choice condition' yes' no' ∧ rest = rest' := by
  rw [Legible] at ht'
  rw [toList_render_choice, toList_render_choice] at h
  obtain ⟨hsameCondition, hquestion⟩ := paren_append_inj hcondition ht'.1 h
  simp only [List.cons.injEq, true_and] at hquestion
  obtain ⟨hsameYes, hcolon⟩ := hyes ht'.2.1 ends_blank ends_blank hquestion
  simp only [List.cons.injEq, true_and] at hcolon
  obtain ⟨hsameNo, hend⟩ := hno ht'.2.2 ends_rightParen ends_rightParen hcolon
  rw [hsameCondition, hsameYes, hsameNo]
  exact ⟨rfl, (List.cons.inj hend).2⟩

/-- Terms that are neither accesses nor negations are told apart if their parts are. -/
theorem base_append_inj {t t' : Term} (ht : t.Legible) (ht' : t'.Legible) (hkeys : t.keys = [])
    (hkeys' : t'.keys = []) (hunary : t.isUnary = false)
    (hparts : ∀ part : Term, sizeOf part < sizeOf t → part.Legible → part.Decodes)
    (hrest : Breaks rest) (hrest' : Breaks rest')
    (h : t.render.toList ++ rest = t'.render.toList ++ rest') : t = t' ∧ rest = rest' := by
  have hcases := of_opening ht hkeys
  have hcases' := of_opening ht' hkeys'
  rw [← opening_eq_of_append ht ht' h] at hcases'
  cases hopening : t.opening with
  | name =>
    rw [hopening] at hcases hcases'
    obtain ⟨hname, hsame⟩ :=
      name_append_inj hcases.1 hcases'.1 hrest.name hrest'.name h
    have hatom := hcases.2
    rw [hname, hcases'.2] at hatom
    exact ⟨(Option.some.inj hatom).symm, hsame⟩
  | text =>
    rw [hopening] at hcases hcases'
    obtain ⟨value, rfl⟩ := hcases
    obtain ⟨value', rfl⟩ := hcases'
    obtain ⟨rfl, hsame⟩ := quote_append_inj h
    exact ⟨rfl, hsame⟩
  | number =>
    rw [hopening] at hcases hcases'
    obtain ⟨value, rfl⟩ := hcases
    obtain ⟨value', rfl⟩ := hcases'
    rw [Legible] at ht ht'
    obtain ⟨n, htext, hread⟩ := exists_numeral_writeNumber ht
    obtain ⟨n', htext', hread'⟩ := exists_numeral_writeNumber ht'
    rw [render, render, ← htext, ← htext'] at h
    obtain ⟨hsame, hafter⟩ := Numeral.text_append_inj hrest hrest' h
    -- Equal numerals are read as one number.
    have hscientific := n.parse?_text
    rw [hsame, n'.parse?_text] at hscientific
    rw [← hread, ← hread', Option.some.inj hscientific]
    exact ⟨rfl, hafter⟩
  | bracket =>
    rw [hopening] at hcases hcases'
    obtain ⟨items, rfl⟩ := hcases
    obtain ⟨items', rfl⟩ := hcases'
    rw [Legible] at ht ht'
    have hitems : ∀ item ∈ items, item.Decodes := fun item hitem =>
      hparts item (by
        have := List.sizeOf_lt_of_mem hitem
        rw [Term.array.sizeOf_spec]
        omega) (legible_of_mem ht hitem)
    have hinner : (renderItems items).toList ++ ']' :: rest =
        (renderItems items').toList ++ ']' :: rest' := by
      simpa [render] using h
    obtain ⟨rfl, hsame⟩ := renderItems_append_inj hitems (fun _ => legible_of_mem ht)
      (fun _ => legible_of_mem ht') hinner
    exact ⟨rfl, hsame⟩
  | paren =>
    rw [hopening] at hcases hcases'
    rcases hcases with ⟨op, left, right, rfl⟩ | ⟨condition, yes, no, rfl⟩
    · rw [Legible] at ht
      have hleft := hparts left (by rw [Term.binary.sizeOf_spec]; omega) ht.1
      have hright := hparts right (by rw [Term.binary.sizeOf_spec]; omega) ht.2
      rcases hcases' with ⟨op', left', right', rfl⟩ | ⟨condition, yes, no, rfl⟩
      · exact binary_append_inj hleft hright ht' h
      · -- The sign behind the first operand tells an operator from a choice.
        rw [Legible] at ht'
        rw [toList_render_binary, toList_render_choice] at h
        exact absurd (paren_append_inj hleft ht'.1 h).2 (symbol_append_ne op _ _)
    · rw [Legible] at ht
      have hcondition := hparts condition (by rw [Term.choice.sizeOf_spec]; omega) ht.1
      have hyes := hparts yes (by rw [Term.choice.sizeOf_spec]; omega) ht.2.1
      have hno := hparts no (by rw [Term.choice.sizeOf_spec]; omega) ht.2.2
      rcases hcases' with ⟨op, left, right, rfl⟩ | ⟨condition', yes', no', rfl⟩
      · rw [Legible] at ht'
        rw [toList_render_binary, toList_render_choice] at h
        exact absurd (paren_append_inj hcondition ht'.1 h).2.symm (symbol_append_ne op _ _)
      · exact choice_append_inj hcondition hyes hno ht' h
  | negation =>
    rw [hopening] at hcases
    obtain ⟨operand, rfl⟩ := hcases
    cases hunary
  | other =>
    rw [hopening] at hcases
    exact hcases.elim

/-- Only a negation begins with the sign of one, since negations are not accessed. -/
theorem exists_of_negation {t : Term} (ht : t.Legible) (h : t.opening = .negation) :
    ∃ operand, t = .unary .not operand ∧ operand.Legible := by
  cases t with
  | unary operator operand =>
    rw [Legible] at ht
    exact ⟨operand, by rw [ht.1], ht.2⟩
  | property target key =>
    rw [Legible] at ht
    obtain ⟨operand, rfl, -⟩ := exists_of_negation ht.2.1 h
    cases ht.1
  | _ => cases h

/-- Legible terms are told apart by their texts. -/
theorem decodes_of_legible {t : Term} (ht : t.Legible) : t.Decodes := by
  -- The parts of a term are smaller, and so are the keys and the base of an access.
  induction hsize : sizeOf t using Nat.strong_induction_on generalizing t with
  | _ size ih =>
    intro t' rest rest' ht' hrest hrest' h
    have hparts (part : Term) (hlt : sizeOf part < sizeOf t) (hpart : part.Legible) :
        part.Decodes := ih (sizeOf part) (hsize ▸ hlt) hpart rfl
    by_cases hnegation : t.opening = .negation
    · have hnegation' := (opening_eq_of_append ht ht' h).symm.trans hnegation
      obtain ⟨operand, rfl, hoperand⟩ := exists_of_negation ht hnegation
      obtain ⟨operand', rfl, hoperand'⟩ := exists_of_negation ht' hnegation'
      have hinner : operand.render.toList ++ rest = operand'.render.toList ++ rest' := by
        simpa [render, UnaryOperator.symbol] using h
      obtain ⟨hsame, hafter⟩ := hparts operand (by rw [Term.unary.sizeOf_spec]; omega) hoperand
        hoperand' hrest hrest' hinner
      rw [hsame]
      exact ⟨rfl, hafter⟩
    · have hunary : t.isUnary = false := by
        cases t with
        | unary => exact absurd rfl hnegation
        | _ => rfl
      rw [toList_render_eq t, toList_render_eq t', List.append_assoc, List.append_assoc] at h
      obtain ⟨hbase, hafter⟩ := base_append_inj (legible_base ht) (legible_base ht') (keys_base t)
        (keys_base t') (isUnary_base ht hunary)
        (fun part hlt => hparts part (hlt.trans_le (sizeOf_base_le t)))
        (breaks_keysChars_append _ hrest) (breaks_keysChars_append _ hrest') h
      obtain ⟨hkeys, hsame⟩ := keysChars_append_inj
        (fun key hkey => hparts key (sizeOf_lt_of_mem_keys hkey) (legible_of_mem_keys ht hkey))
        (fun key hkey => legible_of_mem_keys ht' hkey) hrest hrest' hafter
      rw [← foldl_keys t, ← foldl_keys t', hbase, hkeys]
      exact ⟨rfl, hsame⟩

end Term

end Stencil
