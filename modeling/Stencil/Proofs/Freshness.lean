import Stencil.Proofs.Declarations

/-!
# References and names in compiled commands

Every variable that compiled commands refer to is declared, by a block that is open there or by a
command before that binds for the rest of the document. The names that the compiler makes differ
from each other. They are not kept apart from the names that authors give: if no author gives such a
name, each of them is declared at most once, and references to it stand inside its block; if one
does, the declarations can get into each other's way.

## Main results

* `Session.lower_status_ne_symbol`: the status of a loop never has a name that the compiler makes
* `Compiler.references_declared`: references are declared, and those to names made, in their blocks
* `Compiler.references_not_captured`: when names of authors meet names made, and what follows if not
-/

namespace Stencil

open Markup (Template)
open Session (made)

/-! ### Names of authors -/

namespace Text

/-- The lower-case form ends with that of the last character, which is not a capital sigma. -/
theorem getLast?_lowerAfter (before cs : List Char) {c : Char} (hsigma : c ≠ 'Σ')
    (hascii : c.val < 0x80) : (lowerAfter before (cs ++ [c])).getLast? = some c.toLower := by
  induction cs generalizing before with
  | nil =>
    rw [List.nil_append, lowerAfter, if_neg hsigma, lowerChar, if_pos hascii]
    rfl
  | cons first rest ih =>
    rw [List.cons_append, lowerAfter, List.getLast?_append, ih]
    rfl

end Text

namespace Session

theorem getLast?_symbol (n : Nat) :
    ∃ c, (symbol n).toList.getLast? = some c ∧ c.isDigit = true := by
  have hdigits : (toString n).toList ≠ [] := by
    rw [show toString n = n.repr from rfl, Nat.toList_repr]
    exact Nat.toDigits_ne_nil
  obtain ⟨c, hc⟩ := List.getLast?_isSome.2 hdigits |> Option.isSome_iff_exists.1
  refine ⟨c, ?_, ?_⟩
  · rw [symbol, String.toList_append, List.getLast?_append, hc]
    rfl
  · have hmem := List.mem_of_getLast? hc
    rw [show toString n = n.repr from rfl, Nat.toList_repr] at hmem
    exact Nat.isDigit_of_mem_toDigits (by omega) (by omega) hmem

/-- The status of a loop has a name that ends with a letter, so it is none that the compiler
makes. -/
theorem lower_status_ne_symbol (item : String) (n : Nat) :
    Text.lower (item ++ "List") ≠ symbol n := by
  intro heq
  obtain ⟨c, hlast, hdigit⟩ := getLast?_symbol n
  have hsplit : (item ++ "List").toList = (item.toList ++ ['L', 'i', 's']) ++ ['t'] := by
    rw [String.toList_append]
    simp
  have hletter := Text.getLast?_lowerAfter [] (item.toList ++ ['L', 'i', 's']) (c := 't')
    (by decide) (by decide)
  rw [← heq, Text.lower, String.toList_ofList, hsplit, hletter] at hlast
  obtain rfl := Option.some.inj hlast
  exact absurd hdigit (by decide)

/-- Of the names that the compiler makes, at most one is a given one, up to case. -/
theorem countP_made_le (n count : Nat) :
    (made 0 count).countP (fun name => Text.lower name = symbol n) ≤ 1 := by
  have hsame : (made 0 count).countP (fun name => Text.lower name = symbol n) =
      (made 0 count).count (symbol n) := by
    refine Multiset.countP_congr rfl fun name hname => ?_
    obtain ⟨m, -, rfl⟩ := List.mem_map.1 (Multiset.mem_coe.1 hname)
    simp [lower_symbol, eq_comm]
  rw [hsame]
  exact Multiset.nodup_iff_count_le_one.1 (nodup_made 0 count) (symbol n)

theorem mem_made {name : String} {count : Nat} :
    name ∈ made 0 count ↔ ∃ n < count, symbol n = name := by
  simp [made]

end Session

/-- If no name that an author gives is one that the compiler makes, no variable that the author
declares has such a name. -/
theorem Markup.Template.lower_author_ne_symbol {registry : Registry} {template : Template} {n : Nat}
    (h : ∀ name ∈ template.gather Occurrence.givenNames registry,
      Text.lower name ≠ Session.symbol n) :
    ∀ name ∈ template.gather Occurrence.authorNames registry,
      Text.lower name ≠ Session.symbol n := by
  intro name hname
  obtain ⟨tag, htag, o, ho, hname⟩ := Template.mem_gather.1 hname
  rcases List.mem_append.1 hname with hgiven | hstatus
  · exact h name (Template.mem_gather.2 ⟨tag, htag, o, ho, hgiven⟩)
  · obtain ⟨item, -, rfl⟩ := List.mem_map.1 hstatus
    exact Session.lower_status_ne_symbol item n

/-! ### Declarations of compiled commands -/

namespace Command

theorem declares_iff {name : String} {command : Command} :
    declares name command = true ↔
      ∃ other ∈ command.declaredNames, Text.lower other = Text.lower name := by
  simp [declares, declaredNames]

/-- A command that declares a name counts among the names that are declared. -/
theorem countP_declares_le (name : String) (commands : List Command) :
    commands.countP (declares name) ≤
      (commands.flatMap declaredNames).countP fun other => Text.lower other = Text.lower name := by
  induction commands with
  | nil => exact Nat.le_refl 0
  | cons command rest ih =>
    rw [List.countP_cons, List.flatMap_cons, List.countP_append, Nat.add_comm]
    refine Nat.add_le_add ?_ ih
    split
    · next hdeclares =>
      obtain ⟨other, hmem, hname⟩ := declares_iff.1 hdeclares
      exact List.countP_pos_iff.2 ⟨other, hmem, decide_eq_true hname⟩
    · exact Nat.zero_le _

/-- The blocks that are open were begun by commands before. -/
theorem mem_of_mem_opened {before : List Command} {opener : Command}
    (h : opener ∈ opened before) : opener ∈ before := by
  have htrack : ∀ (commands stack : List Command), opener ∈ commands.foldl track stack →
      opener ∈ stack ∨ opener ∈ commands := by
    intro commands
    induction commands with
    | nil => exact fun stack hmem => .inl hmem
    | cons command rest ih =>
      intro stack hmem
      rcases ih _ hmem with hstack | hrest
      · unfold track at hstack
        split at hstack
        · rcases List.mem_cons.1 hstack with rfl | hstack
          · exact .inr List.mem_cons_self
          · exact .inl hstack
        · split at hstack
          · exact .inl (List.mem_of_mem_tail hstack)
          · exact .inl hstack
      · exact .inr (List.mem_cons_of_mem _ hrest)
  exact (htrack before [] h).resolve_left List.not_mem_nil

theorem flatMap_withoutTexts {α : Type} {f : Command → List α}
    (htext : ∀ text, f (.outText text) = []) (commands : List Command) :
    (withoutTexts commands).flatMap f = commands.flatMap f := by
  induction commands with
  | nil => rfl
  | cons command rest ih =>
    cases command with
    | outText text => rw [List.flatMap_cons, htext, List.nil_append, ← ih]; rfl
    | _ => exact congrArg (f _ ++ ·) ih

end Command

/-- Joining texts changes nothing in what other commands hold. -/
theorem Stream.flatMap_ofCommands {α : Type} {f : Command → List α}
    (htext : ∀ text, f (.outText text) = []) (written : List Command) :
    (ofCommands written).commands.flatMap f = written.flatMap f := by
  rw [← Command.flatMap_withoutTexts htext, withoutTexts_ofCommands,
    Command.flatMap_withoutTexts htext]

namespace Compiler

variable {options : Options} {compiler : Compiler} {bytes : List UInt8} {compilation : Compilation}

/-- What is compiled is the script of the template that was read. -/
theorem exists_script_of_compile (hcompiler : ofOptions options = .ok compiler)
    (hcompile : compiler.compile bytes = .ok compilation) :
    ∃ template session, Template.parse options.bufferSize bytes = .ok template ∧
      compiler.walk template = .ok session ∧ compilation.commands = session.commands ∧
      session.symbols = (compiler.script template).symbolsAfter 0 ∧
      session.commands = (Stream.ofCommands (compiler.script template).commands).commands := by
  obtain ⟨template, htemplate, hcommands, -⟩ := exists_of_compile hcompiler hcompile
  exact ⟨template, _, htemplate, walk_eq (unmarked_of_ofOptions hcompiler) template, hcommands,
    Script.symbols_play _ _, commands_play_start _ _⟩

/-- What the default options make of a source whose template and walk pass a check. -/
theorem exists_of_checked (source : List UInt8) (check : Template → Session → Bool)
    (h : (Template.parse Options.default.bufferSize source).toOption.any (fun template =>
      ((Compiler.mk Options.default (.without []) .builtin).walk template).toOption.any
        (check template)) = true) :
    ∃ compiler compilation template session, ofOptions Options.default = .ok compiler ∧
      compiler.compile source = .ok compilation ∧
      Template.parse Options.default.bufferSize source = .ok template ∧
      compiler.walk template = .ok session ∧ compilation.commands = session.commands ∧
      check template session = true := by
  have hcompiler : ofOptions Options.default = _ := ofOptions_default Options.default.bufferSize
  obtain ⟨template, htemplate, hwalk⟩ := exists_of_any h
  obtain ⟨session, hwalk, hcheck⟩ := exists_of_any hwalk
  obtain ⟨compilation, hcompile⟩ := exists_compile hcompiler htemplate
  obtain ⟨found, last, hfound, hlast, hcommands, -⟩ := exists_script_of_compile hcompiler hcompile
  obtain rfl := Except.ok.inj (hfound.symm.trans htemplate)
  obtain rfl := Except.ok.inj (hlast.symm.trans hwalk)
  exact ⟨_, compilation, found, last, hcompiler, hcompile, hfound, hlast, hcommands, hcheck⟩

/-- What compiled commands declare and refer to, against the template and the session at the end of
the walk. -/
structure Declares (compilation : Compilation) (template : Template) (session : Session) :
    Prop where
  resolved : Command.Resolved [] [] compilation.commands
  global : ∀ command ∈ compilation.commands, ∀ name, command.global? = some name →
    name ∈ template.gather Occurrence.assigned .builtin
  declared : ((compilation.commands.flatMap Command.declaredNames : List String) :
    Multiset String) ≤
      (template.gather Occurrence.authorNames .builtin : List String) + made 0 session.symbols

theorem exists_declares_of_compile (hcompiler : ofOptions options = .ok compiler)
    (hcompile : compiler.compile bytes = .ok compilation) :
    ∃ template session, Template.parse options.bufferSize bytes = .ok template ∧
      compiler.walk template = .ok session ∧ compilation.commands = session.commands ∧
      Declares compilation template session := by
  obtain ⟨template, session, htemplate, hwalk, hcommands, hsymbols, hscript⟩ :=
    exists_script_of_compile hcompiler hcompile
  refine ⟨template, session, htemplate, hwalk, hcommands, ?_⟩
  obtain rfl := eq_of_ofOptions hcompiler
  have hscoped := (Template.scoped_draft Registry.unmarked_builtin
    (Pipeline.without_subset options.disabledFilters) htemplate).script 0
  have hdeclares : Draft.Declares (template.draft (.without options.disabledFilters) .builtin) _ :=
    template.declares_draft Registry.unmarked_builtin
  rw [hscript] at hcommands
  constructor
  · rw [hcommands, Stream.resolved_ofCommands]
    exact Script.resolved_commands hscoped fun _ hname => hname.elim
  · intro command hcommand name hname
    have hkept : command ∈ Command.withoutTexts compilation.commands := by
      refine List.mem_filter.2 ⟨hcommand, ?_⟩
      cases command <;> first | rfl | cases hname
    rw [hcommands, Stream.withoutTexts_ofCommands] at hkept
    exact Script.globals_commands hscoped
      (List.mem_filterMap.2 ⟨command, (List.mem_filter.1 hkept).1, hname⟩)
  · rw [hcommands, Stream.flatMap_ofCommands fun _ => rfl, hsymbols]
    exact hdeclares.le 0

namespace Declares

variable {template : Template} {session : Session}

/-- A variable that a command declares has a name of the author or one that the compiler made. -/
theorem author_or_made (h : Declares compilation template session) {command : Command}
    (hcommand : command ∈ compilation.commands) {name : String}
    (hname : name ∈ command.declaredNames) :
    name ∈ template.gather Occurrence.authorNames .builtin ∨
      ∃ n < session.symbols, Session.symbol n = name := by
  have hmem := Multiset.mem_of_le h.declared
    (Multiset.mem_coe.2 (List.mem_flatMap.2 ⟨command, hcommand, hname⟩))
  rcases Multiset.mem_add.1 hmem with hauthor | hmade
  · exact .inl (Multiset.mem_coe.1 hauthor)
  · exact .inr (Session.mem_made.1 hmade)

/-- A name that the compiler makes and no author gives is declared at most once. -/
theorem countP_le (h : Declares compilation template session) {n : Nat}
    (hauthor : ∀ name ∈ template.gather Occurrence.authorNames .builtin,
      Text.lower name ≠ Session.symbol n) :
    compilation.commands.countP (Command.declares (Session.symbol n)) ≤ 1 := by
  have hnone : (template.gather Occurrence.authorNames .builtin).countP
      (fun name => Text.lower name = Session.symbol n) = 0 :=
    List.countP_eq_zero.2 fun name hname => by simpa using hauthor name hname
  calc compilation.commands.countP (Command.declares (Session.symbol n))
      ≤ (compilation.commands.flatMap Command.declaredNames).countP
          fun name => Text.lower name = Session.symbol n := by
        have hle := Command.countP_declares_le (Session.symbol n) compilation.commands
        rwa [Session.lower_symbol] at hle
    _ ≤ (template.gather Occurrence.authorNames .builtin).countP
          (fun name => Text.lower name = Session.symbol n) +
        (made 0 session.symbols).countP fun name => Text.lower name = Session.symbol n := by
        have hle := Multiset.countP_le_of_le (fun name => Text.lower name = Session.symbol n)
          h.declared
        rwa [Multiset.countP_add, Multiset.coe_countP, Multiset.coe_countP] at hle
    _ ≤ 1 := by
        rw [hnone, Nat.zero_add]
        exact Session.countP_made_le n session.symbols

/-- A variable with a name that no author gives is not one of those bound in the rest of the
document. -/
theorem exists_opener (h : Declares compilation template session) {n : Nat}
    (hgiven : ∀ name ∈ template.gather Occurrence.assigned .builtin,
      Text.lower name ≠ Session.symbol n)
    {before after : List Command} {command : Command}
    (hsplit : compilation.commands = before ++ command :: after) {name : String}
    (hname : name ∈ command.references) (hlower : Text.lower name = Session.symbol n) :
    ∃ opener ∈ Command.opened before, name ∈ opener.declaredNames := by
  rcases Command.resolved_iff.1 h.resolved before command after hsplit name hname with
    hopener | hglobal
  · exact hopener
  · obtain ⟨binding, hbinding, hbound⟩ := List.mem_filterMap.1 hglobal
    have hmem : binding ∈ compilation.commands := hsplit ▸ List.mem_append_left _ hbinding
    exact absurd hlower (hgiven name (h.global binding hmem name hbound))

end Declares

/-- Every variable that compiled commands refer to is declared where they do, by a block that is
open or before in the rest of the document. If no item, no parameter and no other variable that the
author names has a name that the compiler makes, up to case, then each of the names made is declared
by at most one command, and every reference to it stands in the block of that command. -/
theorem references_declared (hcompiler : ofOptions options = .ok compiler)
    (hcompile : compiler.compile bytes = .ok compilation) :
    ∃ template session, Template.parse options.bufferSize bytes = .ok template ∧
      compiler.walk template = .ok session ∧ compilation.commands = session.commands ∧
      (∀ before command after, compilation.commands = before ++ command :: after →
        ∀ name ∈ command.references, Command.Declared before name) ∧
      ((∀ name ∈ template.gather Occurrence.givenNames .builtin, ∀ n,
          Text.lower name ≠ Session.symbol n) →
        ∀ n < session.symbols,
          compilation.commands.countP (Command.declares (Session.symbol n)) ≤ 1 ∧
          ∀ before command after, compilation.commands = before ++ command :: after →
            ∀ name ∈ command.references, Text.lower name = Session.symbol n →
              ∃ opener ∈ Command.opened before, name ∈ opener.declaredNames) := by
  obtain ⟨template, session, htemplate, hwalk, hcommands, hdeclares⟩ :=
    exists_declares_of_compile hcompiler hcompile
  refine ⟨template, session, htemplate, hwalk, hcommands,
    Command.resolved_iff.1 hdeclares.resolved, fun hgiven n _ => ⟨?_, ?_⟩⟩
  · exact hdeclares.countP_le
      (Template.lower_author_ne_symbol fun name hname => hgiven name hname n)
  · intro before command after hsplit name hname hlower
    refine hdeclares.exists_opener (fun assigned hassigned => ?_) hsplit hname hlower
    exact hgiven assigned (Template.gather_mono (fun o => List.subset_append_right _ _) hassigned) n

/-- A loop in which tags are left out under a condition, and a test with a name. -/
def loopSource : List UInt8 :=
  ("<ul data-sly-list.entry='$\x7blist\x7d' data-sly-unwrap='$\x7bplain\x7d'>" ++
    "<li data-sly-test.ok='$\x7bentry\x7d' title='$\x7bok\x7d'>$\x7bentry\x7d</li>" ++
    "</ul>").toUTF8.toList

theorem exists_compile_loopSource :
    ∃ compiler compilation template session, ofOptions Options.default = .ok compiler ∧
      compiler.compile loopSource = .ok compilation ∧
      Template.parse Options.default.bufferSize loopSource = .ok template ∧
      compiler.walk template = .ok session ∧
      template.gather Occurrence.givenNames .builtin = ["entry", "ok"] ∧ session.symbols = 5 := by
  obtain ⟨compiler, compilation, template, session, hcompiler, hcompile, htemplate, hwalk, -, h⟩ :=
    exists_of_checked loopSource (fun template session =>
      template.gather Occurrence.givenNames .builtin == ["entry", "ok"] && session.symbols == 5)
      (by decide +kernel)
  rw [Bool.and_eq_true, beq_iff_eq, beq_iff_eq] at h
  exact ⟨compiler, compilation, template, session, hcompiler, hcompile, htemplate, hwalk, h⟩

theorem lower_ne_symbol_loop :
    ∀ name ∈ ["entry", "ok"], ∀ n, Text.lower name ≠ Session.symbol n := by
  intro name hname n heq
  have hother : ∀ name ∈ ["entry", "ok"], (Text.lower name).toList.head? ≠ some 'v' := by decide
  refine hother name hname ?_
  rw [heq, Session.symbol, String.toList_append]
  rfl

/-- In `loopSource` five names are made, and none of them is declared twice. -/
theorem references_declared_loop :
    ∃ compiler compilation template session,
      ofOptions Options.default = .ok compiler ∧
      compiler.compile loopSource = .ok compilation ∧
      Template.parse Options.default.bufferSize loopSource = .ok template ∧
      template.gather Occurrence.givenNames .builtin = ["entry", "ok"] ∧
      compiler.walk template = .ok session ∧ session.symbols = 5 ∧
      (∀ before command after, compilation.commands = before ++ command :: after →
        ∀ name ∈ command.references, Command.Declared before name) ∧
      ∀ n < 5, compilation.commands.countP (Command.declares (Session.symbol n)) ≤ 1 := by
  obtain ⟨compiler, compilation, template, session, hcompiler, hcompile, htemplate, hwalk, hnames,
    hsymbols⟩ := exists_compile_loopSource
  obtain ⟨found, last, hfound, hlast, -, hdeclared, hmade⟩ :=
    references_declared hcompiler hcompile
  obtain rfl := Except.ok.inj (hfound.symm.trans htemplate)
  obtain rfl := Except.ok.inj (hlast.symm.trans hwalk)
  refine ⟨compiler, compilation, found, last, hcompiler, hcompile, hfound, hnames, hlast, hsymbols,
    hdeclared, fun n hn => ?_⟩
  have hgiven := fun name hname => lower_ne_symbol_loop name (hnames ▸ hname)
  exact (hmade hgiven n (hsymbols ▸ hn)).1

/-- A variable that the author gives the first name that the compiler makes. -/
def setSource : List UInt8 :=
  "<sly data-sly-set.var_0='$\x7b1\x7d'></sly>$\x7bx\x7d".toUTF8.toList

/-- In `setSource` no item and no parameter has a name that the compiler makes, and yet the name
that it makes is declared by two commands. -/
theorem symbol_declared_twice :
    ∃ compiler compilation template session,
      ofOptions Options.default = .ok compiler ∧
      compiler.compile setSource = .ok compilation ∧
      Template.parse Options.default.bufferSize setSource = .ok template ∧
      compiler.walk template = .ok session ∧
      (∀ name ∈ template.gather (fun o => o.items ++ o.parameters) .builtin, ∀ n,
        Text.lower name ≠ Session.symbol n) ∧
      0 < session.symbols ∧
      compilation.commands.countP (Command.declares (Session.symbol 0)) = 2 := by
  obtain ⟨compiler, compilation, template, session, hcompiler, hcompile, htemplate, hwalk,
    hcommands, h⟩ := exists_of_checked setSource (fun template session =>
      (template.gather (fun o => o.items ++ o.parameters) .builtin).isEmpty &&
        (session.symbols == 1 &&
          session.commands.countP (Command.declares (Session.symbol 0)) == 2)) (by decide +kernel)
  rw [Bool.and_eq_true, Bool.and_eq_true, List.isEmpty_iff, beq_iff_eq, beq_iff_eq] at h
  obtain ⟨hnames, hsymbols, hcount⟩ := h
  refine ⟨compiler, compilation, template, session, hcompiler, hcompile, htemplate, hwalk, ?_, ?_,
    ?_⟩
  · rw [hnames]
    exact nofun
  · rw [hsymbols]
    exact Nat.one_pos
  · rw [hcommands]
    exact hcount

/-- The names that the compiler makes differ from each other, up to case, and each variable that
commands declare has one of them or one of the author. No variable of the author has one of them
just if no item, no parameter and no other variable that the author names does. Then the innermost
declaration of a name that was made, wherever a command refers to it, is one of that very name: no
declaration of the author gets in between. -/
theorem references_not_captured (hcompiler : ofOptions options = .ok compiler)
    (hcompile : compiler.compile bytes = .ok compilation) :
    ∃ template session, Template.parse options.bufferSize bytes = .ok template ∧
      compiler.walk template = .ok session ∧ compilation.commands = session.commands ∧
      (((List.range session.symbols).map Session.symbol).Pairwise fun name other =>
        Text.lower name ≠ Text.lower other) ∧
      (∀ command ∈ compilation.commands, ∀ name ∈ command.declaredNames,
        name ∈ template.gather Occurrence.authorNames .builtin ∨
          ∃ n < session.symbols, Session.symbol n = name) ∧
      ((∀ name ∈ template.gather Occurrence.authorNames .builtin, ∀ n < session.symbols,
          Text.lower name ≠ Session.symbol n) ↔
        ∀ name ∈ template.gather Occurrence.givenNames .builtin, ∀ n < session.symbols,
          Text.lower name ≠ Session.symbol n) ∧
      ((∀ name ∈ template.gather Occurrence.givenNames .builtin, ∀ n < session.symbols,
          Text.lower name ≠ Session.symbol n) →
        ∀ before command after, compilation.commands = before ++ command :: after →
          ∀ n < session.symbols, Session.symbol n ∈ command.references →
            ∃ opener, Command.innermost? (Session.symbol n) (Command.opened before) = some opener ∧
              Session.symbol n ∈ opener.declaredNames) := by
  obtain ⟨template, session, htemplate, hwalk, hcommands, hdeclares⟩ :=
    exists_declares_of_compile hcompiler hcompile
  have hauthor : (∀ name ∈ template.gather Occurrence.givenNames .builtin, ∀ n < session.symbols,
        Text.lower name ≠ Session.symbol n) →
      ∀ name ∈ template.gather Occurrence.authorNames .builtin, ∀ n < session.symbols,
        Text.lower name ≠ Session.symbol n := by
    intro hgiven name hname n hn
    exact Template.lower_author_ne_symbol (fun other hother => hgiven other hother n hn) name hname
  refine ⟨template, session, htemplate, hwalk, hcommands, ?_,
    fun command hcommand name hname => hdeclares.author_or_made hcommand hname,
    ⟨fun h name hname => h name ?_, hauthor⟩, ?_⟩
  · rw [List.pairwise_map]
    refine List.nodup_range.imp fun hne heq => hne ?_
    rwa [Session.lower_symbol, Session.lower_symbol, Session.symbol_inj] at heq
  · exact Template.gather_mono (fun o => List.subset_append_left _ _) hname
  · intro hgiven before command after hsplit n hn hreference
    have hassigned : ∀ name ∈ template.gather Occurrence.assigned .builtin,
        Text.lower name ≠ Session.symbol n := fun name hname =>
      hgiven name (Template.gather_mono (fun o => List.subset_append_right _ _) hname) n hn
    obtain ⟨opener, hopener, hname⟩ :=
      hdeclares.exists_opener hassigned hsplit hreference (Session.lower_symbol n)
    -- Some open block declares the name, so there is an innermost one that does, up to case.
    have hsome : (Command.innermost? (Session.symbol n) (Command.opened before)).isSome :=
      List.find?_isSome.2 ⟨opener, hopener, Command.declares_iff.2 ⟨_, hname, rfl⟩⟩
    obtain ⟨inner, hinner⟩ := Option.isSome_iff_exists.1 hsome
    refine ⟨inner, hinner, ?_⟩
    have hfound : Command.declares (Session.symbol n) inner = true := List.find?_some hinner
    obtain ⟨name, hname, hlower⟩ := Command.declares_iff.1 hfound
    rw [Session.lower_symbol] at hlower
    have hmem : inner ∈ compilation.commands := by
      rw [hsplit]
      exact List.mem_append_left _ (Command.mem_of_mem_opened (List.mem_of_find?_eq_some hinner))
    -- Its name is none of the author, and of those made it is the one.
    rcases hdeclares.author_or_made hmem hname with hauthorName | ⟨m, -, rfl⟩
    · exact absurd hlower (hauthor hgiven _ hauthorName n hn)
    · rw [Session.lower_symbol, Session.symbol_inj] at hlower
      rwa [hlower] at hname

/-- In `loopSource` all references to names made are to the declarations of those names. -/
theorem references_not_captured_loop :
    ∃ compiler compilation template session,
      ofOptions Options.default = .ok compiler ∧
      compiler.compile loopSource = .ok compilation ∧
      Template.parse Options.default.bufferSize loopSource = .ok template ∧
      compiler.walk template = .ok session ∧ session.symbols = 5 ∧
      (∀ name ∈ template.gather Occurrence.authorNames .builtin, ∀ n < 5,
        Text.lower name ≠ Session.symbol n) ∧
      ∀ before command after, compilation.commands = before ++ command :: after →
        ∀ n < 5, Session.symbol n ∈ command.references →
          ∃ opener, Command.innermost? (Session.symbol n) (Command.opened before) = some opener ∧
            Session.symbol n ∈ opener.declaredNames := by
  obtain ⟨compiler, compilation, template, session, hcompiler, hcompile, htemplate, hwalk, hnames,
    hsymbols⟩ := exists_compile_loopSource
  obtain ⟨found, last, hfound, hlast, -, -, -, hiff, hreferences⟩ :=
    references_not_captured hcompiler hcompile
  obtain rfl := Except.ok.inj (hfound.symm.trans htemplate)
  obtain rfl := Except.ok.inj (hlast.symm.trans hwalk)
  rw [hsymbols] at hiff hreferences
  have hgiven : ∀ name ∈ found.gather Occurrence.givenNames .builtin, ∀ n < 5,
      Text.lower name ≠ Session.symbol n :=
    fun name hname n _ => lower_ne_symbol_loop name (hnames ▸ hname) n
  exact ⟨compiler, compilation, found, last, hcompiler, hcompile, hfound, hlast, hsymbols,
    hiff.2 hgiven, hreferences hgiven⟩

/-- A loop over items with the first name that the compiler makes. -/
def captureSource : List UInt8 :=
  "<p data-sly-list.var_0='$\x7bitems\x7d'>x</p>".toUTF8.toList

/-- Whether a site refers to the first name made where the item of a loop has it. -/
def isCaptured (site : List Command × Command) : Bool :=
  site.2.references.contains (Session.symbol 0) &&
    match Command.innermost? (Session.symbol 0) site.1 with
    | some (.loopStart list item _ _) => list == Session.symbol 0 && item == Session.symbol 0
    | _ => false

theorem exists_of_isCaptured {site : List Command × Command} (h : isCaptured site = true) :
    Session.symbol 0 ∈ site.2.references ∧ ∃ index here,
      Command.innermost? (Session.symbol 0) site.1 =
        some (.loopStart (Session.symbol 0) (Session.symbol 0) index here) := by
  rw [isCaptured, Bool.and_eq_true, List.contains_iff_mem] at h
  refine ⟨h.1, ?_⟩
  obtain ⟨-, h⟩ := h
  split at h
  · next list item index here hinner =>
    rw [Bool.and_eq_true, beq_iff_eq, beq_iff_eq] at h
    obtain ⟨rfl, rfl⟩ := h
    exact ⟨index, here, hinner⟩
  · cases h

/-- In `captureSource` the item of the loop has a name that the compiler makes for the list, and
where the status of the loop refers to the list, the innermost declaration is that of the item. -/
theorem item_captures_symbol :
    ∃ compiler compilation template session,
      ofOptions Options.default = .ok compiler ∧
      compiler.compile captureSource = .ok compilation ∧
      Template.parse Options.default.bufferSize captureSource = .ok template ∧
      compiler.walk template = .ok session ∧
      Session.symbol 0 ∈ template.gather Occurrence.items .builtin ∧ 0 < session.symbols ∧
      ∃ stack command, (stack, command) ∈ Command.enclosed [] compilation.commands ∧
        Session.symbol 0 ∈ command.references ∧ ∃ index here,
          Command.innermost? (Session.symbol 0) stack =
            some (.loopStart (Session.symbol 0) (Session.symbol 0) index here) := by
  obtain ⟨compiler, compilation, template, session, hcompiler, hcompile, htemplate, hwalk,
    hcommands, h⟩ := exists_of_checked captureSource (fun template session =>
      (template.gather Occurrence.items .builtin).contains (Session.symbol 0) &&
        (session.symbols == 2 && (Command.enclosed [] session.commands).any isCaptured))
      (by decide +kernel)
  rw [Bool.and_eq_true, Bool.and_eq_true, List.contains_iff_mem, beq_iff_eq, List.any_eq_true] at h
  obtain ⟨hname, hsymbols, ⟨stack, command⟩, hsite, hcaptured⟩ := h
  refine ⟨compiler, compilation, template, session, hcompiler, hcompile, htemplate, hwalk, hname,
    ?_, stack, command, ?_, exists_of_isCaptured hcaptured⟩
  · rw [hsymbols]
    exact Nat.two_pos
  · rw [hcommands]
    exact hsite

end Compiler

end Stencil
