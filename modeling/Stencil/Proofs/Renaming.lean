import Mathlib.Data.List.Forall2
import Stencil.Proofs.Occurrences
import Stencil.Proofs.References

/-!
# Other names for variables

A renaming changes the variables in terms and commands, and nothing else. The renamings of interest
change the numbers in the names that the compiler makes. Two drafts are alike up to a renaming if
their commands are the same once those of the first are renamed and locations are left out.

## Main definitions

* `Session.renamed`: a name that the compiler makes, with another number
* `Term.rename`, `Command.rename`: other names for variables
* `Draft.Alike`: drafts with the same commands up to a renaming and locations
* `Draft.Unmoved`: drafts that are alike up to any renaming of names made elsewhere

## Main results

* `Term.rename_of_names`: a renaming that keeps the names in a term keeps the term
* `Stream.commands_map`: texts are joined in the same way after a change of other commands
* `Draft.Alike.bind`, `Draft.Unmoved.bind`: drafts one after the other
-/

namespace Stencil

namespace Session

/-- The number in a name that the compiler makes. -/
def number? (name : String) : Option Nat :=
  -- Digits alone do not decide: a number with a leading zero is in no name that is made.
  let n := Nat.ofDigitChars 10 (name.toList.drop 4) 0
  if symbol n = name then some n else none

@[simp] theorem number?_symbol (n : Nat) : number? (symbol n) = some n := by
  have hdigits : (symbol n).toList.drop 4 = Nat.toDigits 10 n := by
    rw [symbol, String.toList_append, show toString n = n.repr from rfl, Nat.toList_repr]
    rfl
  simp [number?, hdigits]

/-- A name that the compiler makes, with its number changed. Other names stay. -/
def renamed (σ : Nat → Nat) (name : String) : String :=
  match number? name with
  | some n => symbol (σ n)
  | none => name

@[simp] theorem renamed_symbol (σ : Nat → Nat) (n : Nat) : renamed σ (symbol n) = symbol (σ n) := by
  simp [renamed]

theorem renamed_of_ne {name : String} (h : ∀ n, name ≠ symbol n) (σ : Nat → Nat) :
    renamed σ name = name := by
  have hnone : number? name = none := by
    unfold number?
    exact if_neg fun heq => h _ heq.symm
  rw [renamed, hnone]

end Session

variable {ρ : String → String}

/-! ### Terms -/

namespace Term

mutual

/-- The term with other names for its variables. -/
def rename (ρ : String → String) : Term → Term
  | .identifier name => .identifier (ρ name)
  | .property target key => .property (rename ρ target) (rename ρ key)
  | .array items => .array (renameItems ρ items)
  | .map entries => .map (renameEntries ρ entries)
  | .unary operator operand => .unary operator (rename ρ operand)
  | .binary operator left right => .binary operator (rename ρ left) (rename ρ right)
  | .choice condition yes no => .choice (rename ρ condition) (rename ρ yes) (rename ρ no)
  | .call function arguments => .call function (renameItems ρ arguments)
  | .null => .null
  | .text value => .text value
  | .number value => .number value
  | .boolean value => .boolean value

/-- Terms with other names for their variables. -/
def renameItems (ρ : String → String) : List Term → List Term
  | [] => []
  | item :: rest => rename ρ item :: renameItems ρ rest

/-- Entries with other names for the variables in their values. -/
def renameEntries (ρ : String → String) : List (String × Term) → List (String × Term)
  | [] => []
  | (name, value) :: rest => (name, rename ρ value) :: renameEntries ρ rest

end

mutual

/-- A renaming that keeps the names in a term keeps the term. -/
theorem rename_of_names (t : Term) (h : ∀ name ∈ t.names, ρ name = name) : t.rename ρ = t := by
  match t with
  | .identifier name => rw [rename, h name List.mem_cons_self]
  | .property target key =>
    obtain ⟨htarget, hkey⟩ := List.forall_mem_append.1 h
    rw [rename, rename_of_names target htarget, rename_of_names key hkey]
  | .array items => rw [rename, renameItems_of_names items h]
  | .map entries => rw [rename, renameEntries_of_names entries h]
  | .unary _ operand => rw [rename, rename_of_names operand h]
  | .binary _ left right =>
    obtain ⟨hleft, hright⟩ := List.forall_mem_append.1 h
    rw [rename, rename_of_names left hleft, rename_of_names right hright]
  | .choice condition yes no =>
    obtain ⟨hboth, hno⟩ := List.forall_mem_append.1 h
    obtain ⟨hcondition, hyes⟩ := List.forall_mem_append.1 hboth
    rw [rename, rename_of_names condition hcondition, rename_of_names yes hyes,
      rename_of_names no hno]
  | .call _ arguments => rw [rename, renameItems_of_names arguments h]
  | .null => rfl
  | .text _ => rfl
  | .number _ => rfl
  | .boolean _ => rfl

theorem renameItems_of_names (items : List Term) (h : ∀ name ∈ namesOfItems items, ρ name = name) :
    renameItems ρ items = items := by
  match items with
  | [] => rfl
  | item :: rest =>
    obtain ⟨hitem, hrest⟩ := List.forall_mem_append.1 h
    rw [renameItems, rename_of_names item hitem, renameItems_of_names rest hrest]

theorem renameEntries_of_names (entries : List (String × Term))
    (h : ∀ name ∈ namesOfEntries entries, ρ name = name) : renameEntries ρ entries = entries := by
  match entries with
  | [] => rfl
  | (name, value) :: rest =>
    obtain ⟨hvalue, hrest⟩ := List.forall_mem_append.1 h
    rw [renameEntries, rename_of_names value hvalue, renameEntries_of_names rest hrest]

end

/-- A renaming keeps a term. -/
def Fixed (ρ : String → String) (t : Term) : Prop :=
  t.rename ρ = t

theorem renameItems_of_fixed {items : List Term} (h : ∀ item ∈ items, item.Fixed ρ) :
    renameItems ρ items = items := by
  induction items with
  | nil => rfl
  | cons item rest ih =>
    obtain ⟨hitem, hrest⟩ := List.forall_mem_cons.1 h
    rw [renameItems, hitem, ih hrest]

theorem renameEntries_of_fixed {entries : List (String × Term)}
    (h : ∀ entry ∈ entries, entry.2.Fixed ρ) : renameEntries ρ entries = entries := by
  induction entries with
  | nil => rfl
  | cons entry rest ih =>
    obtain ⟨hentry, hrest⟩ := List.forall_mem_cons.1 h
    rw [renameEntries, hentry, ih hrest]

/-- Filters put no names into terms. -/
theorem filterable_fixed : Filterable (Fixed ρ) where
  null := rfl
  text _ := rfl
  map hentries := by rw [Fixed, rename, renameEntries_of_fixed hentries]
  call _ harguments := by rw [Fixed, rename, renameItems_of_fixed harguments]

end Term

/-! ### Commands -/

namespace Command

/-- The command with other names for its variables and procedures. -/
def rename (ρ : String → String) : Command → Command
  | .bindingStart name value here => .bindingStart (ρ name) (value.rename ρ) here
  | .bindingEnd => .bindingEnd
  | .globalBinding name value here => .globalBinding (ρ name) (value.rename ρ) here
  | .conditionalStart name expected => .conditionalStart (ρ name) expected
  | .conditionalEnd => .conditionalEnd
  | .loopStart list item index here => .loopStart (ρ list) (ρ item) (ρ index) here
  | .loopEnd => .loopEnd
  | .outText text => .outText text
  | .outVariable name => .outVariable (ρ name)
  | .procedureStart name parameters here => .procedureStart (ρ name) (parameters.map ρ) here
  | .procedureEnd => .procedureEnd
  | .procedureCall template arguments => .procedureCall (ρ template) (ρ arguments)

/-- The command without its location. -/
def unplaced : Command → Command
  | .bindingStart name value _ => .bindingStart name value .nowhere
  | .globalBinding name value _ => .globalBinding name value .nowhere
  | .loopStart list item index _ => .loopStart list item index .nowhere
  | .procedureStart name parameters _ => .procedureStart name parameters .nowhere
  | command => command

/-- The command with other names and without its location. -/
def recast (ρ : String → String) (command : Command) : Command :=
  (command.rename ρ).unplaced

end Command

/-! ### Texts that are joined -/

/-- A change of commands that leaves texts as they are and makes no others. -/
structure Command.KeepsTexts (f : Command → Command) : Prop where
  text : ∀ text, f (.outText text) = .outText text
  other : ∀ command, (∀ text, command ≠ .outText text) → ∀ text, f command ≠ .outText text

theorem Command.keepsTexts_unplaced : KeepsTexts unplaced where
  text _ := rfl
  other command hcommand text := by
    cases command <;> first | exact hcommand _ | exact nofun

theorem Command.keepsTexts_recast : KeepsTexts (recast ρ) where
  text _ := rfl
  other command hcommand text := by
    cases command <;> first | exact absurd rfl (hcommand _) | exact nofun

namespace Stream

variable {f : Command → Command}

/-- The stream with every command changed. -/
def map (f : Command → Command) (stream : Stream) : Stream :=
  ⟨stream.latestFirst.map f⟩

theorem write_of_ne {command : Command} (h : ∀ text, command ≠ .outText text) (stream : Stream) :
    stream.write command = ⟨command :: stream.latestFirst⟩ := by
  cases command with
  | outText text => exact absurd rfl (h text)
  | _ => rfl

theorem writeText_map (hf : Command.KeepsTexts f) (text : String) (written : List Command) :
    writeText text (written.map f) = (writeText text written).map f := by
  cases written with
  | nil => exact congrArg (fun first => [first]) (hf.text text).symm
  | cons last rest =>
    -- Only a text before is joined with, and the change neither makes nor removes one.
    by_cases htext : ∃ before, last = .outText before
    · obtain ⟨before, rfl⟩ := htext
      rw [List.map_cons, hf.text]
      exact congrArg (· :: rest.map f) (hf.text (before ++ text)).symm
    · have hother : ∀ before, last ≠ .outText before := fun before heq => htext ⟨before, heq⟩
      have hnone (last : Command) (hlast : ∀ before, last ≠ .outText before)
          (rest : List Command) :
          writeText text (last :: rest) = .outText text :: last :: rest := by
        cases last with
        | outText before => exact absurd rfl (hlast before)
        | _ => rfl
      rw [List.map_cons, hnone _ (hf.other last hother), hnone _ hother, List.map_cons, hf.text,
        List.map_cons]

theorem write_map (hf : Command.KeepsTexts f) (stream : Stream) (command : Command) :
    (stream.map f).write (f command) = (stream.write command).map f := by
  by_cases htext : ∃ text, command = .outText text
  · obtain ⟨text, rfl⟩ := htext
    rw [hf.text]
    simp only [write]
    split
    · rfl
    · exact congrArg Stream.mk (writeText_map hf text stream.latestFirst)
  · have hother : ∀ text, command ≠ .outText text := fun text heq => htext ⟨text, heq⟩
    rw [write_of_ne (hf.other command hother), write_of_ne hother]
    rfl

/-- Texts are joined in the same way after the change. -/
theorem commands_map (hf : Command.KeepsTexts f) (written : List Command) :
    (ofCommands (written.map f)).commands = (ofCommands written).commands.map f := by
  have hfold (stream : Stream) :
      (written.map f).foldl write (stream.map f) = (written.foldl write stream).map f := by
    induction written generalizing stream with
    | nil => rfl
    | cons command rest ih => rw [List.map_cons, List.foldl_cons, write_map hf, ih]; rfl
  have hall : ofCommands (written.map f) = (ofCommands written).map f := hfold empty
  rw [hall]
  exact List.map_reverse.symm

end Stream

/-! ### Drafts that are alike -/

/-- The commands of the second are those of the first with other names, locations apart. -/
def Command.AllAlike (ρ : String → String) (commands others : List Command) : Prop :=
  others.map unplaced = commands.map (recast ρ)

namespace Command.AllAlike

variable {first first' second second' : List Command}

theorem nil : AllAlike ρ [] [] := rfl

theorem append (h : AllAlike ρ first first') (h' : AllAlike ρ second second') :
    AllAlike ρ (first ++ second) (first' ++ second') := by
  unfold AllAlike at *
  rw [List.map_append, List.map_append, h, h']

end Command.AllAlike

/-- The commands around a block are alike. -/
structure Header.Alike (ρ : String → String) (header other : Header) : Prop where
  start : Command.AllAlike ρ header.start?.toList other.start?.toList
  close : Command.AllAlike ρ header.close?.toList other.close?.toList

namespace Command.AllAlike

variable {next next' : Script}

theorem statement {x x' : Statement} (h : AllAlike ρ x.commands x'.commands)
    (hnext : AllAlike ρ next.commands next'.commands) :
    AllAlike ρ (Script.statement x next).commands (Script.statement x' next').commands :=
  h.append hnext

theorem block {header header' : Header} (hheader : Header.Alike ρ header header')
    {body body' : Script} (hbody : AllAlike ρ body.commands body'.commands)
    (hnext : AllAlike ρ next.commands next'.commands) :
    AllAlike ρ (Script.block header body next).commands
      (Script.block header' body' next').commands :=
  ((hheader.start.append hbody).append hheader.close).append hnext

end Command.AllAlike

namespace Draft

/-- From `n` names on, two drafts make as many names and write the same commands, up to the renaming
`ρ` and locations. -/
structure Alike (ρ : String → String) (n : Nat) (d d' : Draft Unit) : Prop where
  symbols : (d'.script n).symbolsAfter n = (d.script n).symbolsAfter n
  commands : Command.AllAlike ρ (d.script n).commands (d'.script n).commands

namespace Alike

variable {n : Nat} {d d' e e' : Draft Unit}

theorem done : Alike ρ n (pure ()) (pure ()) := ⟨rfl, rfl⟩

theorem bind (hd : Alike ρ n d d') (he : Alike ρ ((d.script n).symbolsAfter n) e e') :
    Alike ρ n (d >>= fun _ => e) (d' >>= fun _ => e') := by
  -- The first two make as many names, so that the others go on with the same number.
  constructor
  · rw [script_bind, script_bind, Script.symbolsAfter_append, Script.symbolsAfter_append,
      hd.symbols]
    exact he.symbols
  · rw [script_bind, script_bind, Script.commands_append, Script.commands_append, hd.symbols]
    exact hd.commands.append he.commands

/-- A draft after one that makes no names. -/
theorem bind_silent (hd : Alike ρ n d d') (hsilent : (d.script n).symbolsAfter n = n)
    (he : Alike ρ n e e') : Alike ρ n (d >>= fun _ => e) (d' >>= fun _ => e') :=
  hd.bind (by rwa [hsilent])

/-- Scripts that make no names. -/
theorem write {k k' : Script} (hk : k.symbolsAfter n = n) (hk' : k'.symbolsAfter n = n)
    (h : Command.AllAlike ρ k.commands k'.commands) : Alike ρ n (.write k) (.write k') :=
  ⟨hk'.trans hk.symm, h⟩

theorem text (text : String) : Alike ρ n (.say (.outText text)) (.say (.outText text)) :=
  ⟨rfl, rfl⟩

theorem outVariable (name : String) :
    Alike ρ n (.say (.outVariable name)) (.say (.outVariable (ρ name))) :=
  ⟨rfl, rfl⟩

theorem within {header header' : Header} (hheader : Header.Alike ρ header header')
    (hd : Alike ρ n d d') : Alike ρ n (.within header d) (.within header' d') :=
  ⟨hd.symbols, .block hheader hd.commands .nil⟩

theorem foldr_within {headers headers' : List Header}
    (hheaders : List.Forall₂ (Header.Alike ρ) headers headers') (hd : Alike ρ n d d') :
    Alike ρ n (headers.foldr .within d) (headers'.foldr .within d') := by
  induction hheaders with
  | nil => exact hd
  | cons hheader _ ih => exact within hheader ih

/-- Scripts that make no names, then blocks around drafts. -/
theorem around {opening opening' : Script} {headers headers' : List Header}
    (hopening : opening.symbolsAfter n = n) (hopening' : opening'.symbolsAfter n = n)
    (hcommands : Command.AllAlike ρ opening.commands opening'.commands)
    (hheaders : List.Forall₂ (Header.Alike ρ) headers headers') (hd : Alike ρ n d d') :
    Alike ρ n (.around opening headers d) (.around opening' headers' d') := by
  refine (write hopening hopening' hcommands).bind ?_
  rw [script_write, hopening]
  exact foldr_within hheaders hd

end Alike

/-- The renaming keeps the names that a draft makes from `n` names on. -/
def Keeps (ρ : String → String) (n : Nat) (d : Draft Unit) : Prop :=
  ∀ k, n ≤ k → k < (d.script n).symbolsAfter n → ρ (Session.symbol k) = Session.symbol k

/-- Two drafts are alike up to every renaming that keeps the names that they make. -/
def Unmoved (ρ : String → String) (d d' : Draft Unit) : Prop :=
  ∀ n, Keeps ρ n d → Alike ρ n d d'

namespace Unmoved

variable {d d' e e' : Draft Unit}

theorem done : Unmoved ρ (pure ()) (pure ()) := fun _ _ => .done

theorem bind (hd : Unmoved ρ d d') (he : Unmoved ρ e e') :
    Unmoved ρ (d >>= fun _ => e) (d' >>= fun _ => e') := by
  intro n hkeeps
  have hafter : ((d >>= fun _ => e).script n).symbolsAfter n =
      (e.script ((d.script n).symbolsAfter n)).symbolsAfter ((d.script n).symbolsAfter n) := by
    rw [script_bind, Script.symbolsAfter_append]
  rw [Keeps, hafter] at hkeeps
  have hlater := Script.le_symbolsAfter (e.script ((d.script n).symbolsAfter n))
    ((d.script n).symbolsAfter n)
  have hearlier := Script.le_symbolsAfter (d.script n) n
  exact (hd n fun k hle hlt => hkeeps k hle (by omega)).bind
    (he _ fun k hle hlt => hkeeps k (by omega) hlt)

theorem bind_fresh {f f' : String → Draft Unit}
    (h : ∀ name, ρ name = name → Unmoved ρ (f name) (f' name)) :
    Unmoved ρ (fresh >>= f) (fresh >>= f') := by
  intro n hkeeps
  -- The new name is among those kept, and the rest are made after it.
  have hafter : ((fresh >>= f).script n).symbolsAfter n =
      ((f (Session.symbol n)).script (n + 1)).symbolsAfter (n + 1) := rfl
  rw [Keeps, hafter] at hkeeps
  have hlater := Script.le_symbolsAfter ((f (Session.symbol n)).script (n + 1)) (n + 1)
  have hname := hkeeps n (Nat.le_refl n) (by omega)
  have hrest := h (Session.symbol n) hname (n + 1) fun k hle hlt => hkeeps k (by omega) hlt
  exact ⟨hrest.symbols, hrest.commands⟩

theorem text (text : String) : Unmoved ρ (.say (.outText text)) (.say (.outText text)) :=
  fun _ _ => .text text

theorem outVariable {name : String} (h : ρ name = name) :
    Unmoved ρ (.say (.outVariable name)) (.say (.outVariable name)) := by
  intro n _
  have halike : Alike ρ n (.say (.outVariable name)) (.say (.outVariable (ρ name))) :=
    .outVariable name
  rwa [h] at halike

/-- Scripts that make no names and write no commands. -/
theorem write {k k' : Script} (hk : ∀ n, k.symbolsAfter n = n) (hk' : ∀ n, k'.symbolsAfter n = n)
    (hcommands : k.commands = []) (hcommands' : k'.commands = []) :
    Unmoved ρ (.write k) (.write k') := by
  intro n _
  refine .write (hk n) (hk' n) ?_
  rw [hcommands, hcommands']
  exact .nil

theorem within {header header' : Header} (hheader : Header.Alike ρ header header')
    (hd : Unmoved ρ d d') : Unmoved ρ (.within header d) (.within header' d') :=
  fun n hkeeps => (hd n hkeeps).within hheader

/-- Items that are the same up to `g`. -/
theorem forM {γ δ : Type} {f : γ → Draft Unit} {g : γ → δ} {items items' : List γ}
    (hsame : items'.map g = items.map g)
    (h : ∀ a ∈ items, ∀ a', g a' = g a → Unmoved ρ (f a) (f a')) :
    Unmoved ρ (items.forM f) (items'.forM f) := by
  induction items generalizing items' with
  | nil =>
    rw [List.map_eq_nil_iff.1 hsame]
    exact done
  | cons a rest ih =>
    cases items' with
    | nil => cases hsame
    | cons a' rest' =>
      obtain ⟨hfirst, hrest⟩ := List.cons_eq_cons.1 hsame
      obtain ⟨ha, hothers⟩ := List.forall_mem_cons.1 h
      simp only [List.forM_eq_forM, List.forM_cons] at ih ⊢
      exact (ha a' hfirst).bind (ih hrest hothers)

end Unmoved

end Draft

end Stencil
