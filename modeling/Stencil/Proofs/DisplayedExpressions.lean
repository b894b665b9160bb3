import Stencil.Proofs.ApparentTerms
import Stencil.Proofs.Compilation
import Stencil.Proofs.WrittenExpressions

/-!
# Expressions by their texts

The text of an expression that has been read shows its root and its options, each as far as its own
text shows it. Two expressions are written alike only if they show the same: where no negation is
accessed and no number is infinite, only if they are equal.

## Main definitions

* `Expression.apparent`: the expression that a text shows
* `Expression.isPlain`: the text shows the expression itself

## Main results

* `Expression.eq_of_render_eq`: legible expressions are told apart by their texts
* `Expression.readable_of_parse`: what is accepted can be read
* `Expression.render_eq_iff_apparent_eq`: accepted expressions that are written alike
-/

namespace Stencil

/-- What is kept among sorted entries is found under its name. -/
theorem Entries.Sorted.find?_of_mem {α : Type} {entries : Entries α} (h : entries.Sorted)
    {entry : String × α} (hentry : entry ∈ entries) : entries.find? entry.1 = some entry.2 := by
  induction entries with
  | nil => cases hentry
  | cons other entries ih =>
    obtain ⟨hother, hentries⟩ := List.pairwise_cons.1 h
    rw [find?_cons]
    rcases List.mem_cons.1 hentry with rfl | hentry
    · exact if_pos rfl
    · have hne : entry.1 ≠ other.1 := by
        intro heq
        have hlt := hother entry hentry
        rw [heq] at hlt
        exact String.lt_irrefl _ hlt
      rw [if_neg hne]
      exact ih hentries hentry

namespace Expression

variable {rest : List Char}

/-- The expression that the text of an expression shows. -/
def apparent (e : Expression) : Expression :=
  ⟨e.root.apparent, e.options.map fun option => (option.1, option.2.apparent)⟩

/-- Whether the text of an expression shows the expression itself. -/
def isPlain (e : Expression) : Bool :=
  e.root.isPlain && e.options.all fun option => option.2.isPlain

/-- An option whose text can be taken apart. -/
def LegibleOption (option : String × Term) : Prop :=
  isIdentifier option.1 = true ∧ option.2.Legible

/-- An expression whose text can be taken apart. -/
structure Legible (e : Expression) : Prop where
  root : e.root.Legible
  options : ∀ option ∈ e.options, LegibleOption option

/-- An option that can be read. -/
def ReadableOption (option : String × Term) : Prop :=
  isIdentifier option.1 = true ∧ option.2.Readable

/-- An expression that can be read. -/
structure Readable (e : Expression) : Prop where
  root : e.root.Readable
  options : ∀ option ∈ e.options, ReadableOption option

/-! ### What is shown -/

theorem isNull_apparent (t : Term) : t.apparent.isNull = t.isNull := by
  cases t with
  | number value => cases value <;> rfl
  | property target key =>
    rw [Term.apparent]
    cases target.apparent <;> rfl
  | _ => rfl

theorem renderOption_apparent (option : String × Term) :
    renderOption (option.1, option.2.apparent) = renderOption option := by
  apply String.toList_injective
  rw [toList_renderOption, toList_renderOption, isNull_apparent, Term.render_apparent]

theorem renderOptions_apparent (options : Entries Term) :
    renderOptions (options.map fun option => (option.1, option.2.apparent)) =
      renderOptions options := by
  cases options with
  | nil => rfl
  | cons option options =>
    have hmap : (options.map fun option => (option.1, option.2.apparent)).map renderOption =
        options.map renderOption := by
      rw [List.map_map]
      exact List.map_congr_left fun option _ => renderOption_apparent option
    rw [List.map_cons, renderOptions, renderOptions, List.map_cons, List.map_cons, hmap,
      renderOption_apparent]
    · exact List.cons_ne_nil _ _
    · exact List.cons_ne_nil _ _

/-- An expression is written like the expression that its text shows. -/
theorem render_apparent (e : Expression) : e.apparent.render = e.render := by
  rw [render, render, apparent, Term.render_apparent, renderOptions_apparent]

theorem apparent_of_isPlain {e : Expression} (he : e.isPlain = true) : e.apparent = e := by
  rw [isPlain, Bool.and_eq_true, List.all_eq_true] at he
  have hoptions : e.options.map (fun option => (option.1, option.2.apparent)) = e.options := by
    refine (List.map_congr_left fun option hoption => ?_).trans (List.map_id _)
    rw [Term.apparent_of_isPlain (he.2 option hoption)]
    rfl
  rw [apparent, Term.apparent_of_isPlain he.1, hoptions]

theorem Readable.legible_apparent {e : Expression} (he : e.Readable) : e.apparent.Legible := by
  refine ⟨Term.legible_apparent he.root, ?_⟩
  intro option hoption
  obtain ⟨shown, hshown, rfl⟩ := List.mem_map.1 hoption
  obtain ⟨hname, hvalue⟩ := he.options shown hshown
  exact ⟨hname, Term.legible_apparent hvalue⟩

/-! ### Taking texts apart -/

/-- What follows an option: another one or the end of the expression. -/
def EndsOption (rest : List Char) : Prop :=
  rest.head? = some ',' ∨ rest.head? = some '\x7d'

theorem EndsOption.ends (h : EndsOption rest) : Term.Ends rest := by
  rcases h with h | h
  · rw [Term.Ends, h]
    decide
  · rw [Term.Ends, h]
    decide

theorem EndsOption.head?_ne (h : EndsOption rest) : rest.head? ≠ some '=' := by
  rcases h with h | h
  · rw [h]
    decide
  · rw [h]
    decide

/-- The value of an option with its sign; a null literal is left out. -/
def valueChars (value : Term) : List Char :=
  if value.isNull then [] else '=' :: value.render.toList

theorem head?_valueChars_append (value : Term) (hrest : EndsOption rest) :
    (valueChars value ++ rest).head?.any continuesName = false := by
  rw [valueChars]
  split
  · exact (Term.breaks_of_ends hrest.ends).name
  · exact (by decide : continuesName '=' = false)

theorem valueChars_append_inj {value value' : Term} (hvalue : value.Decodes)
    (hvalue' : value'.Legible) {rest' : List Char} (hrest : EndsOption rest)
    (hrest' : EndsOption rest') (h : valueChars value ++ rest = valueChars value' ++ rest') :
    value = value' ∧ rest = rest' := by
  have hnull {t : Term} (ht : t.isNull = true) : t = .null := by
    cases t with
    | null => rfl
    | _ => cases ht
  rw [valueChars, valueChars] at h
  cases hempty : value.isNull with
  | true =>
    cases hempty' : value'.isNull with
    | true =>
      rw [hempty, hempty'] at h
      exact ⟨(hnull hempty).trans (hnull hempty').symm, h⟩
    | false =>
      rw [hempty, hempty'] at h
      exact absurd (congrArg List.head? h) hrest.head?_ne
  | false =>
    cases hempty' : value'.isNull with
    | true =>
      rw [hempty, hempty'] at h
      exact absurd (congrArg List.head? h.symm) hrest'.head?_ne
    | false =>
      rw [hempty, hempty'] at h
      exact hvalue hvalue' hrest.ends hrest'.ends (List.cons.inj h).2

theorem renderOption_append_inj {option option' : String × Term} (hoption : LegibleOption option)
    (hoption' : LegibleOption option') {rest' : List Char} (hrest : EndsOption rest)
    (hrest' : EndsOption rest')
    (h : (renderOption option).toList ++ rest = (renderOption option').toList ++ rest') :
    option = option' ∧ rest = rest' := by
  rw [toList_renderOption, toList_renderOption, List.append_assoc, List.append_assoc] at h
  obtain ⟨hname, hafter⟩ := name_append_inj hoption.1 hoption'.1
    (head?_valueChars_append _ hrest) (head?_valueChars_append _ hrest') h
  obtain ⟨hvalue, hsame⟩ := valueChars_append_inj (Term.decodes_of_legible hoption.2) hoption'.2
    hrest hrest' hafter
  exact ⟨Prod.ext hname hvalue, hsame⟩

/-- Options behind others, up to the end of the expression. -/
def optionsChars (options : Entries Term) : List Char :=
  (options.flatMap fun option => ',' :: ' ' :: (renderOption option).toList) ++ ['\x7d']

theorem optionsChars_cons (option : String × Term) (options : Entries Term) :
    optionsChars (option :: options) =
      ',' :: ' ' :: ((renderOption option).toList ++ optionsChars options) := by
  rw [optionsChars, optionsChars, List.flatMap_cons, List.append_assoc]
  rfl

theorem endsOption_optionsChars (options : Entries Term) : EndsOption (optionsChars options) := by
  cases options with
  | nil => exact .inr rfl
  | cons option options => exact .inl rfl

theorem optionsChars_inj {options options' : Entries Term}
    (hoptions : ∀ option ∈ options, LegibleOption option)
    (hoptions' : ∀ option ∈ options', LegibleOption option)
    (h : optionsChars options = optionsChars options') : options = options' := by
  induction options generalizing options' with
  | nil =>
    cases options' with
    | nil => rfl
    | cons option' options' => exact absurd (List.cons.inj h).1 (by decide)
  | cons option options ih =>
    cases options' with
    | nil => exact absurd (List.cons.inj h).1 (by decide)
    | cons option' options' =>
      obtain ⟨hoption, hmore⟩ := List.forall_mem_cons.1 hoptions
      obtain ⟨hoption', hmore'⟩ := List.forall_mem_cons.1 hoptions'
      rw [optionsChars_cons, optionsChars_cons, List.cons.injEq, List.cons.injEq] at h
      obtain ⟨hfirst, hafter⟩ := renderOption_append_inj hoption hoption'
        (endsOption_optionsChars options) (endsOption_optionsChars options') h.2.2
      rw [hfirst, ih hmore hmore' hafter]

theorem toList_intercalate_cons (option : String × Term) (options : Entries Term) :
    (", ".intercalate ((option :: options).map renderOption)).toList ++ ['\x7d'] =
      (renderOption option).toList ++ optionsChars options := by
  induction options generalizing option with
  | nil => simp [optionsChars]
  | cons next options ih =>
    have hnext := ih next
    rw [List.map_cons] at hnext
    rw [List.map_cons, List.map_cons, String.intercalate_cons_cons, optionsChars_cons, ← hnext]
    simp

/-- What stands behind the root, up to the end of the expression. -/
theorem toList_renderOptions_cons (option : String × Term) (options : Entries Term) :
    (renderOptions (option :: options)).toList ++ ['\x7d'] =
      ' ' :: '@' :: ' ' :: ((renderOption option).toList ++ optionsChars options) := by
  rw [← toList_intercalate_cons, renderOptions]
  · simp
  · exact List.cons_ne_nil _ _

theorem ends_renderOptions (options : Entries Term) :
    Term.Ends ((renderOptions options).toList ++ ['\x7d']) := by
  cases options with
  | nil => exact (by decide : Term.continuesTerm '\x7d' = false)
  | cons option options =>
    rw [toList_renderOptions_cons]
    exact Term.ends_blank

theorem renderOptions_inj {options options' : Entries Term}
    (hoptions : ∀ option ∈ options, LegibleOption option)
    (hoptions' : ∀ option ∈ options', LegibleOption option)
    (h : (renderOptions options).toList ++ ['\x7d'] =
      (renderOptions options').toList ++ ['\x7d']) : options = options' := by
  cases options with
  | nil =>
    cases options' with
    | nil => rfl
    | cons option' options' =>
      rw [toList_renderOptions_cons] at h
      exact absurd (List.cons.inj h).1 (by decide)
  | cons option options =>
    rw [toList_renderOptions_cons] at h
    cases options' with
    | nil => exact absurd (List.cons.inj h).1 (by decide)
    | cons option' options' =>
      -- The first option is taken for one that stands behind a comma.
      rw [toList_renderOptions_cons] at h
      refine optionsChars_inj hoptions hoptions' ?_
      rw [optionsChars_cons, optionsChars_cons]
      simpa using h

/-- Legible expressions are told apart by their texts. -/
theorem eq_of_render_eq {e e' : Expression} (he : e.Legible) (he' : e'.Legible)
    (h : e.render = e'.render) : e = e' := by
  have hbody : e.root.render.toList ++ ((renderOptions e.options).toList ++ ['\x7d']) =
      e'.root.render.toList ++ ((renderOptions e'.options).toList ++ ['\x7d']) := by
    simpa [render] using congrArg String.toList h
  obtain ⟨hroot, hafter⟩ := Term.decodes_of_legible he.root he'.root
    (ends_renderOptions e.options) (ends_renderOptions e'.options) hbody
  have hoptions := renderOptions_inj he.options he'.options hafter
  obtain ⟨root, options⟩ := e
  obtain ⟨root', options'⟩ := e'
  exact congrArg₂ Expression.mk hroot hoptions

/-! ### What is accepted -/

theorem readable_of_derivesOption {tokens : List Token} {option : String × Term}
    (h : DerivesOption tokens option) (htokens : ∀ token ∈ tokens, token.Readable) :
    ReadableOption option := by
  have hname {token : Token} {name : String} (htoken : token.Readable)
      (hname : optionName? token = some name) : isIdentifier name = true := by
    unfold optionName? at hname
    split at hname
    · rw [← Option.some.inj hname]
      exact htoken.1
    · rw [← Option.some.inj hname]
      decide
    · cases hname
  cases h with
  | bare htoken => exact ⟨hname (htokens _ List.mem_cons_self) htoken, trivial⟩
  | valued htoken hvalue =>
    rw [List.forall_mem_cons, List.forall_mem_cons] at htokens
    exact ⟨hname htokens.1 htoken, hvalue.readable htokens.2.2⟩

theorem readable_of_derivesOptions {tokens : List Token} {options : List (String × Term)}
    (h : DerivesOptions tokens options) (htokens : ∀ token ∈ tokens, token.Readable) :
    ∀ option ∈ options, ReadableOption option := by
  induction h with
  | single h => exact List.forall_mem_singleton.2 (readable_of_derivesOption h htokens)
  | comma h _ ih =>
    rw [List.forall_mem_append, List.forall_mem_cons] at htokens
    exact List.forall_mem_cons.2 ⟨readable_of_derivesOption h htokens.1, ih htokens.2.2⟩

theorem readable_of_derivesRoot {tokens : List Token} {root : Term} (h : DerivesRoot tokens root)
    (htokens : ∀ token ∈ tokens, token.Readable) : root.Readable := by
  cases h with
  | missing => trivial
  | term h => exact h.readable htokens

/-- What is accepted can be read. -/
theorem readable_of_parse {here : Location} {body : List Char} {e : Expression}
    (h : parse here body = .ok e) : e.Readable := by
  obtain ⟨list, hlist, hread⟩ := exists_of_bind_eq_ok h
  have htokens := readable_of_ofChars hlist
  obtain ⟨first, second, given, hsplit, hroot, htail, hsorted, hfind⟩ := derived_of_ofTokens hread
  rw [hsplit, List.forall_mem_append] at htokens
  have hgiven : ∀ option ∈ given, ReadableOption option := by
    cases htail with
    | missing => exact nofun
    | options h =>
      exact readable_of_derivesOptions h (List.forall_mem_cons.1 htokens.2).2
  refine ⟨readable_of_derivesRoot hroot htokens.1, fun option hoption => ?_⟩
  -- What is kept under a name was given.
  have hkept := hsorted.find?_of_mem hoption
  rw [hfind] at hkept
  exact hgiven option (List.mem_reverse.1 (Entries.mem_of_find?_eq_some hkept))

/-- Expressions that are accepted are written alike if and only if their texts show the same
expression. So expressions in which no negation is accessed and no number is infinite are written
alike only if they are equal. -/
theorem render_eq_iff_apparent_eq {here here' : Location} {body body' : List Char}
    {e e' : Expression} (h : parse here body = .ok e) (h' : parse here' body' = .ok e') :
    (e.render = e'.render ↔ e.apparent = e'.apparent) ∧
      (e.isPlain = true → e'.isPlain = true → (e.render = e'.render ↔ e = e')) := by
  have hiff : e.render = e'.render ↔ e.apparent = e'.apparent := by
    constructor
    · intro hrender
      apply eq_of_render_eq (readable_of_parse h).legible_apparent
        (readable_of_parse h').legible_apparent
      rw [render_apparent, render_apparent, hrender]
    · intro happarent
      rw [← render_apparent e, ← render_apparent e', happarent]
  refine ⟨hiff, fun hplain hplain' => ?_⟩
  rw [hiff, apparent_of_isPlain hplain, apparent_of_isPlain hplain']

/-- A body with few parentheses and with short numerals. -/
def concise : String :=
  "a['b'].c && !x ? 0.50 : 1e21 @ p, q=['it\\'s', 5e-7]"

/-- The same with other keys and quotes, and with the options in another order. -/
def verbose : String :=
  "((a.b['c'] && (!x)) ? .5 : 1000000000000000000000)@q=[\"it's\",0.0000005],p=null"

/-- The two bodies are displayed alike, so they give one expression. -/
theorem render_eq_iff_apparent_eq_of_bodies :
    ∃ e e', parse .start concise.toList = .ok e ∧ parse .start verbose.toList = .ok e' ∧
      e.render = "$\x7b((a.b.c && !x) ? 0.5 : 1000000000000000000000)" ++
        " @ p, q=['it\\'s', 0.0000005]\x7d" ∧ e = e' := by
  generalize hshown : "$\x7b((a.b.c && !x) ? 0.5 : 1000000000000000000000)" ++
    " @ p, q=['it\\'s', 0.0000005]\x7d" = shown
  obtain ⟨e, h, he⟩ : ∃ e, parse .start concise.toList = .ok e ∧
      (e.isPlain && e.render == shown) = true := by
    subst hshown
    exact exists_of_any (by decide +kernel)
  obtain ⟨e', h', he'⟩ : ∃ e, parse .start verbose.toList = .ok e ∧
      (e.isPlain && e.render == shown) = true := by
    subst hshown
    exact exists_of_any (by decide +kernel)
  rw [Bool.and_eq_true, beq_iff_eq] at he he'
  have hiff := (render_eq_iff_apparent_eq h h').2 he.1 he'.1
  exact ⟨e, e', h, h', he.2, hiff.1 (he.2.trans he'.2.symm)⟩

/-- A negation that is accessed is displayed like the negation of an access, and an infinite number
like a name. -/
theorem render_ambiguous :
    (∃ e e', parse .start "(!a).b".toList = .ok e ∧ parse .start "!a.b".toList = .ok e' ∧
      e.render = e'.render ∧ e ≠ e') ∧
    ∃ e e', parse .start "1e400".toList = .ok e ∧ parse .start "inf".toList = .ok e' ∧
      e.render = e'.render ∧ e ≠ e' := by
  have hdiffer {e e' : Expression} {shown : String}
      (he : (!e.isPlain && e.render == shown) = true)
      (he' : (e'.isPlain && e'.render == shown) = true) : e.render = e'.render ∧ e ≠ e' := by
    rw [Bool.and_eq_true, beq_iff_eq] at he he'
    refine ⟨he.2.trans he'.2.symm, ?_⟩
    rintro rfl
    rw [he'.1] at he
    cases he.1
  constructor
  · obtain ⟨e, h, he⟩ : ∃ e, parse .start "(!a).b".toList = .ok e ∧
        (!e.isPlain && e.render == "$\x7b!a.b\x7d") = true := exists_of_any (by decide +kernel)
    obtain ⟨e', h', he'⟩ : ∃ e, parse .start "!a.b".toList = .ok e ∧
        (e.isPlain && e.render == "$\x7b!a.b\x7d") = true := exists_of_any (by decide +kernel)
    exact ⟨e, e', h, h', hdiffer he he'⟩
  · obtain ⟨e, h, he⟩ : ∃ e, parse .start "1e400".toList = .ok e ∧
        (!e.isPlain && e.render == "$\x7binf\x7d") = true := exists_of_any (by decide +kernel)
    obtain ⟨e', h', he'⟩ : ∃ e, parse .start "inf".toList = .ok e ∧
        (e.isPlain && e.render == "$\x7binf\x7d") = true := exists_of_any (by decide +kernel)
    exact ⟨e, e', h, h', hdiffer he he'⟩

end Expression

end Stencil
