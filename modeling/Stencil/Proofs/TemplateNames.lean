import Stencil.Proofs.Mentions

/-!
# Names of templates

The name of a template is declared when the walk comes to its element, and stays declared. So of an
expression that the walk comes to later it is never reported that the name does not resolve; of one
that comes earlier it is, even though the template is defined in the same document.

## Main definitions

* `Finding.isUnresolved`: a finding that a name does not resolve
* `Mention.reports`: what may be reported of a name in an expression
* `Session.Adds`: between two sessions a name is reported only in certain expressions

## Main results

* `Script.adds_play`: a script reports no name that it has not checked
* `Script.adds_before_definition`: behind a definition the name is not reported
* `Compiler.unresolved_before_definition`: where the name of a template can be reported
* `Compiler.unresolved_template`: a template that is called before its definition
-/

namespace Stencil

/-- Whether a finding is that a name does not resolve which in lower case is `key`. -/
def Finding.isUnresolved (key : String) : Finding → Bool
  | .unresolved name => Text.lower name = key
  | _ => false

theorem Finding.ofUses_isUnresolved (key : String) : Finding.OfUses (isUnresolved key) where
  plain finding h := by
    cases finding with
    | unresolved name => cases h
    | _ => rfl
  hides _ := rfl
  redeclares _ _ := rfl

/-- What is reported of a name in a mention if it does not resolve there. -/
def Mention.reports (key : String) : Mention → List Diagnostic
  | .expression root here =>
    (root.names.filter fun name => Text.lower name = key).map (⟨.warning, here, .unresolved ·⟩)
  | .definition .. => []

namespace Session

/-- The diagnostics of a session that a name does not resolve which in lower case is `key`. -/
def unresolvedOf (key : String) (s : Session) : List Diagnostic :=
  s.diagnostics.filter (·.finding.isUnresolved key)

/-- From `s` to `t` a name is reported only where it stands in mentions, in their order. -/
def Adds (key : String) (s t : Session) (mentions : List Mention) : Prop :=
  ∃ found, t.unresolvedOf key = s.unresolvedOf key ++ found ∧
    found.Sublist (mentions.flatMap (Mention.reports key))

variable {key : String} {s t u : Session} {mentions more : List Mention}

theorem unresolvedOf_eq (key : String) (s : Session) :
    s.unresolvedOf key = (s.reportsOf (Finding.isUnresolved key)).reverse :=
  List.filter_reverse

theorem adds_of_eq (h : t.unresolvedOf key = s.unresolvedOf key) : Adds key s t mentions :=
  ⟨[], h.trans (List.append_nil _).symm, List.nil_sublist _⟩

theorem Adds.trans (h : Adds key s t mentions) (h' : Adds key t u more) :
    Adds key s u (mentions ++ more) := by
  obtain ⟨first, hfirst, hsub⟩ := h
  obtain ⟨second, hsecond, hsub'⟩ := h'
  refine ⟨first ++ second, ?_, ?_⟩
  · rw [hsecond, hfirst, List.append_assoc]
  · rw [List.flatMap_append]
    exact hsub.append hsub'

/-- Of the reports of a check, those of one name. -/
theorem filter_unresolvedIn (root : Term) (here : Location) (s : Session) :
    (s.unresolvedIn root here).filter (·.finding.isUnresolved key) =
      if s.setup.strict then
        ((root.names.filter fun name => Text.lower name = key).filter fun name =>
          !s.resolves name).map (⟨.warning, here, .unresolved ·⟩)
      else [] := by
  rw [unresolvedIn]
  split
  · rw [List.filter_map, List.filter_filter, List.filter_filter]
    refine congrArg _ (List.filter_congr fun name _ => ?_)
    exact Bool.and_comm ..
  · rfl

theorem contains_declareGlobal (name : String) (here : Location) (s : Session) :
    (s.declareGlobal name here).globals.contains (Text.lower name) = true := by
  rw [globals_declareGlobal, Entries.contains_insert, decide_eq_true rfl, Bool.true_or]

/-- A name that is declared for the whole document resolves, in whatever case it is written. -/
theorem resolves_of_contains (h : s.globals.contains key = true) {name : String}
    (hname : Text.lower name = key) : s.resolves name = true := by
  subst hname
  rw [resolves, h, Bool.or_true, Bool.true_or]

end Session

/-! ### Statements and blocks -/

namespace Statement

variable {x : Statement} {key : String} {s : Session}

theorem unresolvedOf_run (hplain : x.Plain) (key : String) (s : Session) :
    (x.run s).unresolvedOf key =
      s.unresolvedOf key ++ (x.unresolved s).filter (·.finding.isUnresolved key) := by
  rw [Session.unresolvedOf_eq, reportsOf_run (Finding.ofUses_isUnresolved key) hplain,
    List.reverse_append, ← Session.unresolvedOf_eq, List.filter_reverse, List.reverse_reverse]

/-- A statement reports no name that it does not check. -/
theorem adds_run (hplain : x.Plain) (key : String) (s : Session) :
    Session.Adds key s (x.run s) x.mentions := by
  refine ⟨_, unresolvedOf_run hplain key s, ?_⟩
  cases x with
  | check root here =>
    rw [unresolved, Session.filter_unresolvedIn, mentions, List.flatMap_singleton]
    split
    · exact List.filter_sublist.map _
    · exact List.nil_sublist _
  | _ => exact List.nil_sublist _

/-- A statement does not report a name that is declared for the whole document. -/
theorem unresolvedOf_run_eq (hplain : x.Plain) (hkey : s.globals.contains key = true) :
    (x.run s).unresolvedOf key = s.unresolvedOf key := by
  have hnone : (x.unresolved s).filter (·.finding.isUnresolved key) = [] := by
    cases x with
    | check root here =>
      rw [unresolved, Session.filter_unresolvedIn]
      split
      · refine List.map_eq_nil_iff.2 (List.filter_eq_nil_iff.2 fun name hname => ?_)
        have hlower := of_decide_eq_true (List.mem_filter.1 hname).2
        simp [Session.resolves_of_contains hkey hlower]
      · rfl
    | _ => rfl
  rw [unresolvedOf_run hplain, hnone, List.append_nil]

/-- A statement that defines a template declares its name and reports nothing. -/
theorem of_mentions_eq {name : String} {here : Location} {first rest : List Mention}
    (h : x.mentions = first ++ .definition name here :: rest) :
    first = [] ∧ x = .declareGlobal name here := by
  cases x with
  | declareGlobal other place =>
    cases first with
    | nil =>
      obtain ⟨hdefinition, -⟩ := List.cons.inj h
      obtain ⟨rfl, rfl⟩ := Mention.definition.inj hdefinition
      exact ⟨rfl, rfl⟩
    | cons mention first => simp [mentions] at h
  | check root place =>
    cases first with
    | nil => simp [mentions] at h
    | cons mention first => simp [mentions] at h
  | _ => simp [mentions] at h

end Statement

theorem Header.unresolvedOf_enter (header : Header) (key : String) (s : Session) :
    (header.enter s).unresolvedOf key = s.unresolvedOf key := by
  rw [Session.unresolvedOf_eq, header.reportsOf_enter (Finding.ofUses_isUnresolved key),
    Session.unresolvedOf_eq]

/-! ### Scripts -/

namespace Script

variable {k : Script} {known : Set (String × Location)} {key : String} {s : Session}

/-- A script reports no name that it has not checked. -/
theorem adds_play (h : k.Settled known) (key : String) (s : Session) :
    Session.Adds key s (k.play s) k.mentions := by
  induction k generalizing known s with
  | done => exact Session.adds_of_eq rfl
  | statement x next ih => exact (Statement.adds_run h.2.1 key s).trans (ih h.2.2 _)
  | block header body next hbody ih =>
    have hinside := hbody h.2.1 (header.enter s)
    rw [Session.Adds, header.unresolvedOf_enter] at hinside
    exact Session.Adds.trans hinside (ih h.2.2 (header.exit s (body.play (header.enter s))))

/-- A script does not report a name that is declared for the whole document. -/
theorem unresolvedOf_play_eq (h : k.Settled known) (hkey : s.globals.contains key = true) :
    (k.play s).unresolvedOf key = s.unresolvedOf key := by
  induction k generalizing known s with
  | done => rfl
  | statement x next ih =>
    rw [play, ih h.2.2 ((x.precedes_run s).globals key hkey),
      Statement.unresolvedOf_run_eq h.2.1 hkey]
  | block header body next hbody ih =>
    have henter := (header.precedes_enter s).globals key hkey
    have hafter : (header.exit s (body.play (header.enter s))).globals.contains key = true :=
      (body.precedes_play _).globals key henter
    rw [play, ih h.2.2 hafter, ← header.unresolvedOf_enter key s]
    exact hbody h.2.1 henter

variable {name : String} {here : Location}

/-- What a script defines is declared after it. -/
theorem contains_of_definition (h : .definition name here ∈ k.mentions) (s : Session) :
    (k.play s).globals.contains (Text.lower name) = true := by
  induction k generalizing s with
  | done => cases h
  | statement x next ih =>
    rcases List.mem_append.1 h with hx | hnext
    · obtain ⟨first, rest, hsplit⟩ := List.append_of_mem hx
      obtain ⟨-, rfl⟩ := Statement.of_mentions_eq hsplit
      refine (next.precedes_play _).globals _ ?_
      exact Session.contains_declareGlobal name here s
    · exact ih hnext _
  | block header body next hbody ih =>
    rcases List.mem_append.1 h with hinside | hnext
    · exact (next.precedes_play _).globals _ (hbody hinside (header.enter s))
    · exact ih hnext _

theorem append_eq_append_cons {α : Type} {first second before after : List α} {a : α}
    (h : first ++ second = before ++ a :: after) :
    (∃ rest, first = before ++ a :: rest) ∨
      ∃ rest, before = first ++ rest ∧ second = rest ++ a :: after := by
  rcases List.append_eq_append_iff.1 h with ⟨rest, hbefore, hsecond⟩ | ⟨rest, hfirst, hafter⟩
  · exact .inr ⟨rest, hbefore, hsecond⟩
  · cases rest with
    | nil => exact .inr ⟨[], by simpa using hfirst.symm, by simpa using hafter.symm⟩
    | cons other rest =>
      obtain ⟨rfl, -⟩ := List.cons.inj hafter
      exact .inl ⟨rest, hfirst⟩

/-- Behind the definition of a template its name is not reported. -/
theorem adds_before_definition (h : k.Settled known) {first second : List Mention}
    (hsplit : k.mentions = first ++ .definition name here :: second) (s : Session) :
    Session.Adds (Text.lower name) s (k.play s) first := by
  -- By induction on the script, with the definition in the first part or in what follows.
  induction k generalizing known first second s with
  | done => simp [mentions] at hsplit
  | statement x next ih =>
    rcases append_eq_append_cons hsplit with ⟨rest, hx⟩ | ⟨rest, rfl, hnext⟩
    · -- The statement is the definition: nothing is reported before it, and nothing behind it.
      obtain ⟨rfl, rfl⟩ := Statement.of_mentions_eq hx
      have hdeclared := s.contains_declareGlobal name here
      refine Session.adds_of_eq ((unresolvedOf_play_eq h.2.2 hdeclared).trans ?_)
      exact (Statement.unresolvedOf_run h.2.1 _ s).trans (List.append_nil _)
    · exact (Statement.adds_run h.2.1 _ s).trans (ih h.2.2 hnext _)
  | block header body next hbody ih =>
    have houter {mentions : List Mention} (hadds : Session.Adds (Text.lower name)
        (header.enter s) (body.play (header.enter s)) mentions) :
        Session.Adds (Text.lower name) s (header.exit s (body.play (header.enter s))) mentions := by
      rw [Session.Adds, header.unresolvedOf_enter] at hadds
      exact hadds
    rcases append_eq_append_cons hsplit with ⟨rest, hinside⟩ | ⟨rest, rfl, hnext⟩
    · -- A name of the document outlives the block in which it is declared.
      have hmem : .definition name here ∈ body.mentions :=
        hinside ▸ List.mem_append_right _ List.mem_cons_self
      have hdeclared : (header.exit s (body.play (header.enter s))).globals.contains
          (Text.lower name) = true := contains_of_definition hmem (header.enter s)
      have hbefore := houter (hbody h.2.1 hinside (header.enter s))
      rw [← List.append_nil first]
      exact hbefore.trans (Session.adds_of_eq (unresolvedOf_play_eq h.2.2 hdeclared))
    · exact (houter (adds_play h.2.1 _ _)).trans (ih h.2.2 hnext _)

end Script

/-- The template that a mention defines. -/
def Mention.defined? : Mention → Option String
  | .definition name _ => some name
  | .expression .. => none

theorem Mention.eq_of_defined? {mention : Mention} {name : String}
    (h : mention.defined? = some name) : ∃ here, mention = .definition name here := by
  cases mention with
  | expression root here => cases h
  | definition other here => exact ⟨here, congrArg (Mention.definition · here) (Option.some.inj h)⟩

namespace Compiler

open Markup

variable {options : Options} {compiler : Compiler} {bytes : List UInt8} {compilation : Compilation}

/-- The check for hidden globals reports no name that does not resolve. -/
theorem filter_isUnresolved_shadowReports (key : String) (globals : List String)
    (policy : ShadowPolicy) (commands : List Command) :
    (commands.flatMap (Watcher.shadowReports globals policy)).filter
      (·.finding.isUnresolved key) = [] := by
  refine List.filter_eq_nil_iff.2 fun diagnostic hdiagnostic => ?_
  obtain ⟨command, -, hcommand⟩ := List.mem_flatMap.1 hdiagnostic
  unfold Watcher.shadowReports at hcommand
  split at hcommand
  · cases hcommand
  · obtain ⟨⟨name, here⟩, -, rfl⟩ := List.mem_map.1 hcommand
    exact Bool.false_ne_true

/-- **Templates and their names.** Wherever the walk comes to the definition of a template, the name
of the template, in whatever case, is reported as not declared only in expressions that the walk has
come to before: the diagnostics that say so are among those for the occurrences of the name in these
expressions, in their order. -/
theorem unresolved_before_definition (hcompiler : ofOptions options = .ok compiler)
    (hcompile : compiler.compile bytes = .ok compilation) :
    ∃ template, Template.parse options.bufferSize bytes = .ok template ∧
      ∀ first name here second,
        template.mentions (.without options.disabledFilters) .builtin =
          first ++ .definition name here :: second →
        (compilation.diagnostics.filter (·.finding.isUnresolved (Text.lower name))).Sublist
          (first.flatMap (Mention.reports (Text.lower name))) := by
  obtain ⟨template, htemplate, -, hdiagnostics⟩ := exists_of_compile hcompiler hcompile
  refine ⟨template, htemplate, fun first name here second hsplit => ?_⟩
  have hunmarked := unmarked_of_ofOptions hcompiler
  have hmentions : (compiler.script template).mentions =
      first ++ .definition name here :: second := by
    rw [← hsplit, eq_of_ofOptions hcompiler]
    exact template.mentions_draft Registry.unmarked_builtin [] 0
  obtain ⟨found, hfound, hsub⟩ := Script.adds_before_definition
    (settled_script hunmarked template) hmentions (Session.start compiler.setup)
  -- What is left are the reports of the walk, and the walk starts without any.
  rw [hdiagnostics, List.filter_append, filter_isUnresolved_shadowReports, List.append_nil]
  rw [← Session.unresolvedOf, hfound]
  exact hsub

/-- A template that is called before its definition, and used behind it in another case. -/
def tileSource : List UInt8 :=
  ("<sly data-sly-call='$\x7btile\x7d'></sly>" ++
    "<sly data-sly-template.Tile='$\x7b@ title\x7d'>x</sly>$\x7bTILE\x7d").toUTF8.toList

theorem exists_tile :
    ∃ compilation template here,
      strictCompiler.compile tileSource = .ok compilation ∧
      Template.parse strictOptions.bufferSize tileSource = .ok template ∧
      .definition "Tile" here ∈ template.mentions (.without []) .builtin ∧
      (compilation.diagnostics.filter
        (·.finding.isUnresolved (Text.lower "Tile"))).length = 1 := by
  obtain ⟨compilation, hcompile, hone⟩ := exists_of_any (by decide +kernel :
    (strictCompiler.compile tileSource).toOption.any (fun c => (c.diagnostics.filter
      (·.finding.isUnresolved (Text.lower "Tile"))).length == 1) = true)
  obtain ⟨template, htemplate, hdefines⟩ := exists_of_any (by decide +kernel :
    (Template.parse strictOptions.bufferSize tileSource).toOption.any (fun template =>
      (template.mentions (.without []) .builtin).any (·.defined? == some "Tile")) = true)
  obtain ⟨mention, hmem, hdefined⟩ := List.any_eq_true.1 hdefines
  obtain ⟨here, rfl⟩ := Mention.eq_of_defined? (eq_of_beq hdefined)
  exact ⟨compilation, template, here, hcompile, htemplate, hmem, eq_of_beq hone⟩

/-- Of the two uses of the template, one is reported: the one before its definition. -/
theorem unresolved_before_definition_tile :
    ∃ compilation template first here second,
      ofOptions strictOptions = .ok strictCompiler ∧
      strictCompiler.compile tileSource = .ok compilation ∧
      Template.parse strictOptions.bufferSize tileSource = .ok template ∧
      template.mentions (.without []) .builtin = first ++ .definition "Tile" here :: second ∧
      (compilation.diagnostics.filter
        (·.finding.isUnresolved (Text.lower "Tile"))).length = 1 ∧
      (compilation.diagnostics.filter (·.finding.isUnresolved (Text.lower "Tile"))).Sublist
        (first.flatMap (Mention.reports (Text.lower "Tile"))) := by
  have hcompiler : ofOptions strictOptions = .ok strictCompiler := rfl
  obtain ⟨compilation, other, here, hcompile, hother, hmem, hone⟩ := exists_tile
  obtain ⟨template, htemplate, hall⟩ := unresolved_before_definition hcompiler hcompile
  obtain rfl := Except.ok.inj (hother.symm.trans htemplate)
  obtain ⟨first, second, hsplit⟩ := List.append_of_mem hmem
  exact ⟨compilation, other, first, here, second, hcompiler, hcompile, htemplate, hsplit, hone,
    hall first "Tile" here second hsplit⟩

/-- A template is defined in the document, and yet its name is reported as not declared. -/
theorem unresolved_template :
    ∃ compilation template,
      strictCompiler.compile tileSource = .ok compilation ∧
      Template.parse strictOptions.bufferSize tileSource = .ok template ∧
      (∃ here, .definition "Tile" here ∈ template.mentions (.without []) .builtin) ∧
      ∃ diagnostic ∈ compilation.diagnostics,
        diagnostic.finding.isUnresolved (Text.lower "Tile") = true := by
  obtain ⟨compilation, template, here, hcompile, htemplate, hmem, hone⟩ := exists_tile
  obtain ⟨diagnostic, hdiagnostic⟩ := List.exists_mem_of_length_pos (hone ▸ Nat.one_pos)
  obtain ⟨hreported, hunresolved⟩ := List.mem_filter.1 hdiagnostic
  exact ⟨compilation, template, hcompile, htemplate, ⟨here, hmem⟩, diagnostic, hreported,
    hunresolved⟩

end Compiler

end Stencil
