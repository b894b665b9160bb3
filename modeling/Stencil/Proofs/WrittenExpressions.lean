import Stencil.Proofs.ReadTerms
import Stencil.Proofs.TermLevels

/-!
# Written expressions

The written form of an expression, between the braces, is read back as the expression, wherever it
stands. What is not written is the sign of a zero, and what is too deep is refused.

## Main definitions

* `Expression.Printable`: an expression whose written form says what it is
* `Expression.tokens`: the tokens of an expression
* `Expression.Fits`: the root and the options are not too deep

## Main results

* `Expression.lexes_render`: the written form is cut into the tokens
* `Expression.ofTokens_tokens`: the tokens are read back
* `Expression.parse_render`: the written form is read back
-/

namespace Stencil

namespace Entries

variable {α : Type} {name : String} {value : α} {entries : Entries α}

/-- A name behind all others. -/
theorem insert_of_forall_lt (h : ∀ entry ∈ entries, entry.1 < name) :
    entries.insert name value = entries ++ [(name, value)] := by
  induction entries with
  | nil => rfl
  | cons entry entries ih =>
    obtain ⟨hentry, hentries⟩ := List.forall_mem_cons.1 h
    have hne : name ≠ entry.1 := by
      rintro rfl
      exact String.lt_irrefl _ hentry
    rw [insert, if_neg (String.lt_asymm hentry), if_neg hne, ih hentries]
    rfl

end Entries

namespace Expression

variable {e : Expression} {option : String × Term} {options : Entries Term}

/-- The tokens of an option; a null literal is left out. -/
def tokensOfOption (option : String × Term) : List Token :=
  tokenOfName option.1 :: if option.2.isNull then [] else .assign :: option.2.tokens

/-- The tokens of options with commas between them. -/
def tokensOfOptions : Entries Term → List Token
  | [] => []
  | [option] => tokensOfOption option
  | option :: next :: rest => tokensOfOption option ++ .comma :: tokensOfOptions (next :: rest)

/-- The tokens behind the root. -/
def tokensAfterRoot (options : Entries Term) : List Token :=
  if options.isEmpty then [] else .atSign :: tokensOfOptions options

/-- The tokens of an expression. -/
def tokens (e : Expression) : List Token :=
  e.root.tokens ++ tokensAfterRoot e.options

/-- A name that an option can have. -/
def IsOptionName (name : String) : Prop :=
  Lexes name.toList [.identifier name] ∨ name = "in"

/-- An expression whose written form says what it is. Its options are kept in the order of their
names. -/
structure Printable (e : Expression) : Prop where
  terms : e.Forall Term.Printable
  names : ∀ option ∈ e.options, IsOptionName option.1
  sorted : e.options.Sorted

/-! ### Cutting -/

theorem IsOptionName.isName {name : String} (h : IsOptionName name) : IsName name.toList := by
  rcases h with h | rfl
  · exact (Lexes.identifier_iff.1 h).1
  · decide

theorem toList_renderOption (option : String × Term) :
    (renderOption option).toList =
      option.1.toList ++ if option.2.isNull then [] else '=' :: option.2.render.toList := by
  obtain ⟨name, value⟩ := option
  cases value <;> simp [renderOption, Term.isNull]

theorem lexes_renderOption (hname : IsOptionName option.1) (hvalue : option.2.Printable)
    {rest : List Char} {after : List Token} (hstop : nameLength rest = 0)
    (hnumber : ∀ last, numberLength last rest = 0) (hrest : Lexes rest after) :
    Lexes ((renderOption option).toList ++ rest) (tokensOfOption option ++ after) := by
  rw [toList_renderOption, tokensOfOption, List.append_assoc, List.cons_append]
  split
  · exact Lexes.ofName hname.isName hstop hrest
  · have h := Term.lexes_render hvalue hstop (fun _ => hnumber) hrest
    exact Lexes.ofName hname.isName rfl (h.assign (Term.head?_render_append hvalue rest))

/-- Options with commas between them, at the end of the expression. -/
theorem lexes_renderOptions (hnames : ∀ option ∈ options, IsOptionName option.1)
    (hvalues : ∀ option ∈ options, option.2.Printable) :
    Lexes (", ".intercalate (options.map renderOption)).toList (tokensOfOptions options) := by
  induction options with
  | nil => exact Lexes.nil
  | cons option options ih =>
    obtain ⟨hname, hnames⟩ := List.forall_mem_cons.1 hnames
    obtain ⟨hvalue, hvalues⟩ := List.forall_mem_cons.1 hvalues
    have hoptions := ih hnames hvalues
    cases options with
    | nil =>
      have h := lexes_renderOption hname hvalue rfl (fun _ => rfl) Lexes.nil
      simpa [tokensOfOptions] using h
    | cons next options =>
      have h := lexes_renderOption hname hvalue rfl (fun _ => rfl) hoptions.blank.comma
      rw [List.map_cons, List.map_cons, String.intercalate_cons_cons, tokensOfOptions]
      simpa using h

/-- The written form of an expression, between the braces, is cut into its tokens. -/
theorem lexes_render (he : e.Printable) :
    Lexes (e.root.render ++ renderOptions e.options).toList e.tokens := by
  obtain ⟨⟨hroot, hvalues⟩, hnames, -⟩ := he
  rw [String.toList_append, tokens]
  cases hoptions : e.options with
  | nil => exact Term.lexes_render hroot rfl (fun _ _ => rfl) Lexes.nil
  | cons option options =>
    rw [hoptions] at hvalues hnames
    have h := lexes_renderOptions hnames hvalues
    simpa [renderOptions, tokensAfterRoot] using Term.lexes_render hroot rfl (fun _ _ => rfl) h.blank.atSign.blank

/-! ### Reading -/

/-- What can be read of an option. -/
def readOption? (option : String × Term) : Option (String × Term) :=
  (option.2.readAt? maxNesting).bind fun value => some (option.1, value)

theorem optionName_of_token {name : String} (h : IsOptionName name) {first : PlacedToken}
    (hfirst : first.token = tokenOfName name) : optionName first = .ok name := by
  rcases h with h | rfl
  · rw [(Lexes.identifier_iff.1 h).2] at hfirst
    simp only [optionName, hfirst]
  · simp only [optionName, hfirst]
    rfl

theorem outcome_readOption (hname : IsOptionName option.1) (hvalue : option.2.Printable)
    {after : List Token} (hafter : after.head?.any Token.goesOn = false)
    (hassign : after.head? ≠ some .assign) {c : Cursor}
    (hc : c.tokens = tokensOfOption option ++ after) :
    Outcome after (readOption c) (readOption? option) := by
  obtain ⟨name, value⟩ := option
  obtain ⟨hadvance, hfirst⟩ := Cursor.advance_of_tokens hc
  have hoption := optionName_of_token hname hfirst
  cases hnull : value.isNull with
  | true =>
    cases value with
    | null =>
      have hpeek : c.advance.peek ≠ some .assign := by
        rw [Cursor.peek_eq, hadvance]
        exact hassign
      refine ⟨c.advance, ?_, hadvance⟩
      rw [readOption_eq, hoption]
      exact if_neg hpeek
    | _ => cases hnull
  | false =>
    simp only [hnull] at hadvance
    have hpeek : c.advance.peek = some .assign := Cursor.peek_of_tokens hadvance
    have hread := (Level.readsBack_ofDepth maxNesting).term.single hvalue hafter c.advance.advance
      (Cursor.advance_of_tokens hadvance).1
    have hvalue : readOption c =
        term c.advance.advance >>= fun read => .ok ((name, read.1), read.2) := by
      rw [readOption_eq, hoption]
      exact if_pos hpeek
    rw [hvalue]
    exact hread.bind fun value next hnext => ⟨next, rfl, hnext⟩

theorem optionsAfter_eq (found : Entries Term) (c : Cursor) :
    optionsAfter found c = readOption c >>= fun read =>
      if read.2.peek = some .comma then
        if read.2.advance.rest.length < c.rest.length then
          optionsAfter (found.insert read.1.1 read.1.2) read.2.advance
        else .ok (found.insert read.1.1 read.1.2, read.2.advance)
      else .ok (found.insert read.1.1 read.1.2, read.2) := by
  rw [optionsAfter]
  cases readOption c <;> rfl

theorem eq_of_readOption? {read : String × Term} (h : readOption? option = some read) :
    read.1 = option.1 := by
  obtain ⟨value, -, hread⟩ := Option.bind_eq_some_iff.1 h
  rw [← Option.some.inj hread]

theorem insert_of_readOption? {read : String × Term} {found : Entries Term}
    (hread : readOption? option = some read) (hfound : ∀ entry ∈ found, entry.1 < option.1) :
    found.insert read.1 read.2 = found ++ [read] := by
  rw [← eq_of_readOption? hread] at hfound
  exact Entries.insert_of_forall_lt hfound

/-- Options in the order of their names, behind those that have been found. -/
theorem outcome_optionsAfter {found : Entries Term}
    (hnames : ∀ other ∈ option :: options, IsOptionName other.1)
    (hvalues : ∀ other ∈ option :: options, other.2.Printable)
    (hsorted : Entries.Sorted (option :: options))
    (hfound : ∀ entry ∈ found, ∀ other ∈ option :: options, entry.1 < other.1) {c : Cursor}
    (hc : c.tokens = tokensOfOptions (option :: options)) :
    Outcome [] (optionsAfter found c) (((option :: options).mapM readOption?).map (found ++ ·)) := by
  induction options generalizing option found c with
  | nil =>
    rw [tokensOfOptions, ← List.append_nil (tokensOfOption option)] at hc
    rw [optionsAfter_eq, TermReader.map_mapM_cons]
    have hoption := outcome_readOption (hnames option List.mem_cons_self)
      (hvalues option List.mem_cons_self) rfl (by simp) hc
    refine hoption.bind_of_eq fun read next hread hnext => ?_
    have hpeek : next.peek ≠ some .comma := by rw [next.peek_eq, hnext]; exact nofun
    have hinsert := insert_of_readOption? hread fun entry hentry =>
      hfound entry hentry option List.mem_cons_self
    rw [if_neg hpeek, hinsert]
    exact ⟨next, by simp, hnext⟩
  | cons second options ih =>
    obtain ⟨hname, hnames⟩ := List.forall_mem_cons.1 hnames
    obtain ⟨hvalue, hvalues⟩ := List.forall_mem_cons.1 hvalues
    obtain ⟨hfirst, hsorted⟩ := List.pairwise_cons.1 hsorted
    rw [tokensOfOptions] at hc
    rw [optionsAfter_eq, TermReader.map_mapM_cons]
    have hoption := outcome_readOption hname hvalue rfl (by simp) hc
    refine hoption.bind_of_eq fun read next hread hnext => ?_
    have hpeek : next.peek = some .comma := Cursor.peek_of_tokens hnext
    have hadvance := (Cursor.advance_of_tokens hnext).1
    have hshorter := Cursor.length_lt_of_tokens hc hadvance
    have hinsert := insert_of_readOption? hread fun entry hentry =>
      hfound entry hentry option List.mem_cons_self
    rw [if_pos hpeek, if_pos hshorter, hinsert]
    -- The option that has been read now stands before all that follow.
    refine ih hnames hvalues hsorted ?_ hadvance
    intro entry hentry other hother
    rcases List.mem_append.1 hentry with hentry | hentry
    · exact hfound entry hentry other (List.mem_cons_of_mem _ hother)
    · rw [List.mem_singleton.1 hentry, eq_of_readOption? hread]
      exact hfirst other hother

/-- The root and the values of the options are not too deep, each with its own level. -/
def Fits (e : Expression) : Prop :=
  e.Forall (·.nesting < maxNesting)

/-- The expression with zeros that have no sign. -/
def withoutZeroSigns (e : Expression) : Expression :=
  ⟨e.root.withoutZeroSigns, e.options.map fun option => (option.1, option.2.withoutZeroSigns)⟩

/-- The numbers in an expression. -/
def numbers (e : Expression) : List Binary64 :=
  e.root.numbers ++ e.options.flatMap fun option => option.2.numbers

theorem withoutZeroSigns_eq_self
    (h : ∀ value ∈ e.numbers, value.isZero = true → value = .zero false) :
    e.withoutZeroSigns = e := by
  rw [numbers, List.forall_mem_append] at h
  obtain ⟨hroot, hoptions⟩ := h
  have hvalues : e.options.map (fun option => (option.1, option.2.withoutZeroSigns)) = e.options := by
    refine (List.map_congr_left fun option hoption => ?_).trans (List.map_id _)
    have hvalue := Term.withoutZeroSigns_eq_self fun value hvalue =>
      hoptions value (List.mem_flatMap.2 ⟨option, hoption, hvalue⟩)
    rw [hvalue]
    rfl
  rw [withoutZeroSigns, Term.withoutZeroSigns_eq_self hroot, hvalues]

/-- What can be read of an expression. -/
def read? (e : Expression) : Option Expression :=
  (e.root.readAt? maxNesting).bind fun root =>
    (e.options.mapM readOption?).bind fun options => some ⟨root, options⟩

theorem mapM_readOption? (h : ∀ option ∈ options, option.2.nesting < maxNesting) :
    options.mapM readOption? =
      some (options.map fun option => (option.1, option.2.withoutZeroSigns)) := by
  induction options with
  | nil => rfl
  | cons option options ih =>
    obtain ⟨hoption, hoptions⟩ := List.forall_mem_cons.1 h
    rw [List.mapM_cons, ih hoptions, readOption?, Term.readAt?, if_pos hoption]
    rfl

theorem mapM_readOption?_eq_none (h : ¬ ∀ option ∈ options, option.2.nesting < maxNesting) :
    options.mapM readOption? = none := by
  induction options with
  | nil => exact absurd nofun h
  | cons option options ih =>
    rw [List.mapM_cons]
    by_cases hoption : option.2.nesting < maxNesting
    · rw [ih fun hoptions => h (List.forall_mem_cons.2 ⟨hoption, hoptions⟩)]
      cases readOption? option <;> rfl
    · rw [readOption?, Term.readAt?, if_neg hoption]
      rfl

theorem read?_of_fits (h : e.Fits) : e.read? = some e.withoutZeroSigns := by
  rw [read?, Term.readAt?, if_pos h.1, mapM_readOption? h.2]
  rfl

theorem read?_eq_none (h : ¬ e.Fits) : e.read? = none := by
  rw [read?, Term.readAt?]
  split
  next hroot =>
    rw [mapM_readOption?_eq_none fun hoptions => h ⟨hroot, hoptions⟩]
    rfl
  · rfl

/-- The options behind the root, if there are any. -/
theorem outcome_options (he : e.Printable) {c : Cursor}
    (hc : c.tokens = tokensAfterRoot e.options) :
    Outcome [] (if c.peek = some .atSign then optionsAfter [] c.advance else .ok ([], c))
      (e.options.mapM readOption?) := by
  obtain ⟨⟨-, hvalues⟩, hnames, hsorted⟩ := he
  cases hoptions : e.options with
  | nil =>
    rw [hoptions] at hc
    have hpeek : c.peek ≠ some .atSign := by rw [c.peek_eq, hc]; exact nofun
    rw [if_neg hpeek]
    exact ⟨c, rfl, hc⟩
  | cons option options =>
    rw [hoptions] at hc hvalues hnames hsorted
    have hpeek : c.peek = some .atSign := Cursor.peek_of_tokens hc
    have h := outcome_optionsAfter hnames hvalues hsorted (List.forall_mem_nil _)
      (Cursor.advance_of_tokens hc).1
    rw [if_pos hpeek]
    simpa using h

theorem head?_tokensAfterRoot (options : Entries Term) :
    (tokensAfterRoot options).head?.any Token.goesOn = false := by
  cases options <;> rfl

/-- The tokens of an expression are read back, wherever they stand. -/
theorem ofTokens_tokens (he : e.Printable) {placed : List PlacedToken}
    (hplaced : placed.map (·.token) = e.tokens) (finish : Location) :
    match e.read? with
    | some read => ofTokens ⟨placed, finish⟩ = .ok read
    | none => ∃ location, ofTokens ⟨placed, finish⟩ = .error ⟨location, .tooDeep⟩ := by
  obtain ⟨first, more, htokens, hfirst⟩ := Term.exists_tokens_eq_cons he.terms.1
  cases placed with
  | nil =>
    rw [tokens, htokens] at hplaced
    cases hplaced
  | cons next rest =>
    have hat : next.token ≠ .atSign := by
      rw [tokens, htokens] at hplaced
      have hnext : next.token = first := (List.cons.inj hplaced).1
      rw [hnext]
      rintro rfl
      split at hfirst <;> cases hfirst
    have hroot : Outcome (tokensAfterRoot e.options) (term ⟨next, next :: rest, finish⟩)
        (e.root.readAt? maxNesting) :=
      (Level.readsBack_ofDepth maxNesting).term.single he.terms.1
        (head?_tokensAfterRoot e.options) _ hplaced
    rw [ofTokens_cons, if_neg hat, read?]
    cases hvalue : e.root.readAt? maxNesting with
    | none =>
      rw [hvalue] at hroot
      obtain ⟨location, hroot⟩ := hroot
      exact ⟨location, by rw [hroot]; rfl⟩
    | some root =>
      rw [hvalue] at hroot
      obtain ⟨behind, hroot, hbehind⟩ := hroot
      have hoptions := outcome_options he hbehind
      cases hvalues : e.options.mapM readOption? with
      | none =>
        rw [hvalues] at hoptions
        obtain ⟨location, hoptions⟩ := hoptions
        exact ⟨location, by simp only [hroot, hoptions, bind, Except.bind]⟩
      | some options =>
        rw [hvalues] at hoptions
        obtain ⟨last, hoptions, hlast⟩ := hoptions
        have hend : last.peek = none := by rw [last.peek_eq, hlast]; rfl
        simp only [hroot, hoptions, hend, bind, Except.bind, Option.bind]
        rfl

/-- An expression with most forms of terms, a zero with a sign and options with and without a
value. -/
def mixed : Expression :=
  ⟨.choice
    (.binary .and (.property (.property (.identifier "a") (.text "b")) (.text "x y"))
      (.unary .not (.identifier "c")))
    (.array [.number (.zero true), .text "it's", .null]) (.boolean true),
    [("context", .text "html"), ("in", .null)]⟩

/-- A name behind a number of negations. -/
def negations : Nat → Term
  | 0 => .identifier "a"
  | n + 1 => .unary .not (negations n)

theorem printable_identifier {name : String}
    (h : IsName name.toList ∧ tokenOfName name = .identifier name) :
    (Term.identifier name).Printable := by
  rw [Term.Printable]
  exact Lexes.identifier_iff.2 h

theorem printable_mixed : mixed.Printable := by
  have hb : ((Term.identifier "a").property (.text "b")).Printable := by
    rw [Term.Printable]
    refine ⟨⟨rfl, printable_identifier (by decide)⟩, trivial, fun name hname => ?_⟩
    obtain rfl := Term.text.inj (Term.eq_text_of_dotted? hname)
    exact Lexes.identifier_iff.2 (by decide)
  have hxy : (((Term.identifier "a").property (.text "b")).property (.text "x y")).Printable := by
    rw [Term.Printable]
    refine ⟨⟨rfl, hb⟩, trivial, fun name hname => ?_⟩
    have hnone : Term.dotted? (.text "x y") = none := by decide
    rw [hnone] at hname
    cases hname
  have hnot : (Term.unary .not (.identifier "c")).Printable := by
    rw [Term.Printable]
    exact ⟨rfl, printable_identifier (by decide)⟩
  have hzero : (Binary64.zero true).IsNatural :=
    ⟨⟨by decide, .inr rfl⟩, 0, by decide +kernel, by decide⟩
  refine ⟨⟨⟨⟨hxy, hnot⟩, ⟨hzero, trivial, trivial, trivial⟩, trivial⟩, ?_⟩, ?_, ?_⟩
  · exact List.forall_mem_cons.2 ⟨trivial, List.forall_mem_singleton.2 trivial⟩
  · exact List.forall_mem_cons.2
      ⟨.inl (Lexes.identifier_iff.2 (by decide)), List.forall_mem_singleton.2 (.inr rfl)⟩
  · exact List.pairwise_pair.2 (by decide)

theorem printable_negations (n : Nat) : (negations n).Printable := by
  induction n with
  | zero => exact printable_identifier (by decide)
  | succ n ih =>
    rw [negations, Term.Printable]
    exact ⟨rfl, ih⟩

theorem nesting_negations (n : Nat) : (negations n).nesting = n := by
  induction n with
  | zero => rfl
  | succ n ih => rw [negations, Term.nesting, ih]

/-- The written form of an expression is read back, wherever it stands: the text between the braces
gives the expression, as long as neither the root nor an option is too deep. If one is, that is what
is reported. Zeros are equal whatever their sign, which is not written: where no zero has one, the
expression comes back as it is. -/
theorem parse_render {e : Expression} (he : e.Printable) :
    (∃ body, e.render.toList = '$' :: '\x7b' :: (body ++ ['\x7d']) ∧
      ∀ here,
        (e.Fits → parse here body = .ok e.withoutZeroSigns) ∧
        (¬ e.Fits → ∃ location, parse here body = .error ⟨location, .tooDeep⟩)) ∧
      ((∀ value ∈ e.numbers, value.isZero = true → value = .zero false) →
        e.withoutZeroSigns = e) := by
  refine ⟨⟨(e.root.render ++ renderOptions e.options).toList, by simp [render], fun here => ?_⟩,
    withoutZeroSigns_eq_self⟩
  obtain ⟨placed, finish, hchars, hplaced⟩ := lexes_render he here
  have hread := ofTokens_tokens he hplaced finish
  have hparse : parse here (e.root.render ++ renderOptions e.options).toList =
      ofTokens ⟨placed, finish⟩ := by
    rw [parse, hchars]
    rfl
  rw [hparse]
  constructor
  · intro hfits
    rwa [read?_of_fits hfits] at hread
  · intro hfits
    rwa [read?_eq_none hfits] at hread

/-- The mixed expression is read back, with a zero that has no sign. Of negations, which are read
back as long as there is a level for each, one more is too many. -/
theorem parse_render_mixed :
    (mixed.Printable ∧ mixed.Fits ∧
      mixed.render =
        "$\x7b((a.b['x y'] && !c) ? [0, 'it\\'s', null] : true) @ context='html', in\x7d" ∧
      ∃ body, mixed.render.toList = '$' :: '\x7b' :: (body ++ ['\x7d']) ∧
        ∀ here, parse here body = .ok mixed.withoutZeroSigns) ∧
    ((ofRoot (negations 63)).Fits ∧ ¬ (ofRoot (negations 64)).Fits ∧
      ∃ body, (ofRoot (negations 64)).render.toList = '$' :: '\x7b' :: (body ++ ['\x7d']) ∧
        ∀ here, ∃ location, parse here body = .error ⟨location, .tooDeep⟩) := by
  have hfits : mixed.Fits := ⟨by decide, by decide⟩
  have hfits63 : (ofRoot (negations 63)).Fits :=
    ⟨(nesting_negations 63).trans_lt (by decide), nofun⟩
  have hfits64 : ¬ (ofRoot (negations 64)).Fits := fun hfits =>
    absurd ((nesting_negations 64).symm.trans_lt hfits.1) (by decide)
  have hnegations : (ofRoot (negations 64)).Printable :=
    ⟨⟨printable_negations 64, nofun⟩, nofun, .nil⟩
  obtain ⟨⟨body, hbody, hparse⟩, -⟩ := parse_render printable_mixed
  obtain ⟨⟨body', hbody', hparse'⟩, -⟩ := parse_render hnegations
  exact ⟨⟨printable_mixed, hfits, by decide +kernel, body, hbody, fun here => (hparse here).1 hfits⟩,
    hfits63, hfits64, body', hbody', fun here => (hparse' here).2 hfits64⟩

end Expression

end Stencil
