import Stencil.Proofs.Draft
import Stencil.Proofs.Symbols

/-!
# What commands show

Of a command list we look at the values that are written, at the calls of procedures, and at the
procedures that are defined. A variable stands for the value that the innermost declaration of its
name binds, in the blocks that are open there.

## Main definitions

* `Command.valueOf?`: the value that a name is bound to, in open blocks
* `Command.shown`: what a command list shows, in order
* `Reading`: a way to read scripts part by part
* `Draft.Reads`, `Draft.Shows`: what is read off a draft, in blocks that are open

## Main results

* `Script.shown_commands`: what a script shows is found block by block
* `Stream.shown_ofCommands`: joining texts changes nothing in what is shown
-/

namespace Stencil

/-- What a command shows. -/
inductive Shown where
  /-- A value is written. -/
  | written (value? : Option Term)
  /-- A procedure is called with arguments. -/
  | called (procedure? arguments? : Option Term)
  /-- A procedure is defined. -/
  | defined (name : String) (parameters : List String)

namespace Command

/-- The value of a name, if the innermost declaration of the name is a binding of just this name. -/
def valueOf? (name : String) (stack : List Command) : Option Term :=
  match innermost? name stack with
  | some (.bindingStart bound value _) => if bound = name then some value else none
  | _ => none

/-- What a command shows, in open blocks. -/
def shown? (stack : List Command) : Command → Option Shown
  | .outVariable name => some (.written (valueOf? name stack))
  | .procedureCall template arguments =>
    some (.called (valueOf? template stack) (valueOf? arguments stack))
  | .procedureStart name parameters _ => some (.defined name parameters)
  | _ => none

/-- What commands show, in open blocks. -/
def shown (stack : List Command) (commands : List Command) : List Shown :=
  (enclosed stack commands).filterMap fun site => shown? site.1 site.2

theorem valueOf?_bindingStart (name : String) (value : Term) (here : Location)
    (stack : List Command) :
    valueOf? name (.bindingStart name value here :: stack) = some value := by
  simp [valueOf?, innermost?, declares, declared]

theorem valueOf?_cons {name : String} {command : Command} (h : declares name command = false)
    (stack : List Command) : valueOf? name (command :: stack) = valueOf? name stack := by
  simp [valueOf?, innermost?, h]

/-- A value that a name has is bound by the innermost declaration of the name. -/
theorem innermost?_of_valueOf? {name : String} {stack : List Command} {value : Term}
    (h : valueOf? name stack = some value) :
    ∃ here, innermost? name stack = some (.bindingStart name value here) := by
  unfold valueOf? at h
  split at h
  · next bound found here hfound =>
    split at h
    · next hname =>
      obtain rfl := Option.some.inj h
      rw [hname] at hfound
      exact ⟨here, hfound⟩
    · cases h
  · cases h

theorem shown_append (stack first second : List Command) :
    shown stack (first ++ second) =
      shown stack first ++ shown (first.foldl track stack) second := by
  rw [shown, enclosed_append, List.filterMap_append]
  rfl

end Command

/-- Joining texts changes nothing in what is shown. -/
theorem Stream.shown_ofCommands (stack : List Command) (written : List Command) :
    Command.shown stack (ofCommands written).commands = Command.shown stack written := by
  have hfilter (sites : List (List Command × Command)) :
      (sites.filter fun site => !site.2.isText).filterMap
          (fun site => Command.shown? site.1 site.2) =
        sites.filterMap fun site => Command.shown? site.1 site.2 := by
    rw [List.filterMap_filter]
    congr
    funext site
    obtain ⟨around, command⟩ := site
    cases command <;> rfl
  rw [Command.shown, ← hfilter, Stream.enclosed_ofCommands, hfilter]
  rfl

/-! ### Scripts -/

/-- What a statement shows. -/
def Statement.shown (stack : List Command) : Statement → List Shown
  | .outVariable name => [.written (Command.valueOf? name stack)]
  | .callProcedure template arguments =>
    [.called (Command.valueOf? template stack) (Command.valueOf? arguments stack)]
  | _ => []

/-- A statement opens no block. -/
theorem Statement.foldl_track_commands (x : Statement) (stack : List Command) :
    x.commands.foldl Command.track stack = stack := by
  cases x <;> rfl

namespace Header

/-- What the beginning of a block shows. -/
def shown : Header → List Shown
  | .procedure name parameters _ => [.defined name parameters]
  | _ => []

/-- The blocks open inside a block. -/
def inside (header : Header) (stack : List Command) : List Command :=
  header.start?.toList ++ stack

/-- The blocks open inside several blocks, the first of them outermost. -/
def insideAll (headers : List Header) (stack : List Command) : List Command :=
  headers.foldl (fun stack header => header.inside stack) stack

variable (header : Header) (stack : List Command)

theorem foldl_track_start :
    header.start?.toList.foldl Command.track stack = header.inside stack := by
  cases header <;> rfl

theorem foldl_track_close :
    header.close?.toList.foldl Command.track (header.inside stack) = stack := by
  cases header <;> rfl

theorem shown_start : Command.shown stack header.start?.toList = header.shown := by
  cases header <;> rfl

theorem shown_close : Command.shown stack header.close?.toList = [] := by
  cases header <;> rfl

end Header

namespace Script

/-- What a script shows. -/
def shown (stack : List Command) : Script → List Shown
  | .done => []
  | .statement first next => first.shown stack ++ next.shown stack
  | .block header body next => header.shown ++ body.shown (header.inside stack) ++ next.shown stack

@[simp] theorem shown_append (first second : Script) (stack : List Command) :
    (first ++ second).shown stack = first.shown stack ++ second.shown stack := by
  induction first with
  | done => rfl
  | statement x next ih => simp [shown, ih]
  | block header body next _ ih => simp [shown, ih]

/-- A variable that is bound only to be written. -/
theorem shown_binding (kind : DeclarationKind) (name : String) (value : Term) (here : Location)
    (stack : List Command) :
    (block (.binding kind name value here) (.statement (.outVariable name) .done) .done).shown
      stack = [.written (some value)] := by
  have hvalue := Command.valueOf?_bindingStart name value here stack
  simp only [shown, Statement.shown, Header.shown, Header.inside, Header.start?,
    Option.toList_some, List.cons_append, List.nil_append, hvalue, List.append_nil]

/-- A variable that is bound to be written if it is true, between two texts. -/
theorem shown_bindingIf (kind : DeclarationKind) (name : String) (value : Term) (here : Location)
    (before after : String) (stack : List Command) :
    (block (.binding kind name value here)
      (.block (.conditional name true)
        (.statement (.outText before)
          (.statement (.outVariable name) (.statement (.outText after) .done)))
        .done)
      .done).shown stack = [.written (some value)] := by
  have hinner : Command.valueOf? name (.conditionalStart name true ::
      .bindingStart name value here :: stack) = some value :=
    (Command.valueOf?_cons rfl _).trans (Command.valueOf?_bindingStart name value here stack)
  simp only [shown, Statement.shown, Header.shown, Header.inside, Header.start?,
    Option.toList_some, List.cons_append, List.nil_append, hinner, List.append_nil]

/-- After a script the same blocks are open as before. -/
theorem foldl_track_commands (k : Script) (stack : List Command) :
    k.commands.foldl Command.track stack = stack := by
  induction k generalizing stack with
  | done => rfl
  | statement x next ih =>
    rw [commands, List.foldl_append, x.foldl_track_commands, ih]
  | block header body next hbody ih =>
    simp only [commands, List.foldl_append, header.foldl_track_start, hbody,
      header.foldl_track_close, ih]

/-- What the commands of a script show is found block by block. -/
theorem shown_commands (k : Script) (stack : List Command) :
    Command.shown stack k.commands = k.shown stack := by
  induction k generalizing stack with
  | done => rfl
  | statement x next ih =>
    rw [commands, Command.shown_append, x.foldl_track_commands, ih, shown]
    cases x <;> rfl
  | block header body next hbody ih =>
    simp only [commands, Command.shown_append, List.foldl_append, header.foldl_track_start,
      foldl_track_commands, header.foldl_track_close, header.shown_start, header.shown_close, hbody,
      ih, List.append_nil, shown]

end Script

/-! ### Drafts -/

/-- A way to read scripts part by part, under the blocks that are open. What only concerns the
compiler or is plain text counts nothing. -/
structure Reading (σ : Type) where
  /-- What is read off a script. -/
  script : List Command → Script → List σ
  /-- What the beginning of a block counts by itself. -/
  header : Header → List σ
  append : ∀ stack first second,
    script stack (first ++ second) = script stack first ++ script stack second
  block : ∀ stack opening body, script stack (.block opening body .done) =
    header opening ++ script (opening.inside stack) body
  done : ∀ stack, script stack .done = [] := by intros; rfl
  text : ∀ stack text, script stack (.statement (.outText text) .done) = [] := by intros; rfl
  report : ∀ stack severity here finding,
    script stack (.statement (.report severity here finding) .done) = [] := by intros; rfl
  generate : ∀ stack, script stack (.statement .generate .done) = [] := by intros; rfl
  conditional : ∀ name expected, header (.conditional name expected) = [] := by intros; rfl
  rawText : header .rawText = [] := by rfl

/-- What scripts show. -/
def Reading.shown : Reading Shown where
  script stack k := k.shown stack
  header := Header.shown
  append stack first second := Script.shown_append first second stack
  block stack opening body := List.append_nil _

theorem Reading.script_shown (stack : List Command) (k : Script) :
    shown.script stack k = k.shown stack := rfl

theorem Reading.header_shown : shown.header = Header.shown := rfl

namespace Draft

variable {α β σ : Type} {r : Reading σ} {stack : List Command}

/-- In blocks that are open, certain things are read off a draft, however many names were made
before. -/
def Reads (r : Reading σ) (stack : List Command) (d : Draft α) (found : List σ) : Prop :=
  ∀ n, r.script stack (d.script n) = found

/-- What a draft shows in blocks that are open. -/
abbrev Shows (stack : List Command) (d : Draft α) (seen : List Shown) : Prop :=
  Reads .shown stack d seen

namespace Reads

variable {d : Draft α} {found more : List σ}

theorem pure (a : α) : Reads r stack (Pure.pure a : Draft α) [] := fun _ => r.done stack

/-- What comes after has to be read for the results that the draft can have. -/
theorem bind_value {f : α → Draft β} (hd : Reads r stack d found)
    (hf : ∀ n, Reads r stack (f (d.value n)) more) : Reads r stack (d >>= f) (found ++ more) := by
  intro n
  rw [script_bind, r.append, hd n, hf n]

theorem bind {f : α → Draft β} (hd : Reads r stack d found) (hf : ∀ a, Reads r stack (f a) more) :
    Reads r stack (d >>= f) (found ++ more) :=
  hd.bind_value fun _ => hf _

/-- Nothing is read before. -/
theorem bind_nil {f : α → Draft β} (hd : Reads r stack d []) (hf : ∀ a, Reads r stack (f a) more) :
    Reads r stack (d >>= f) more :=
  hd.bind hf

/-- Nothing is read after. -/
theorem bind_last {f : α → Draft β} (hd : Reads r stack d found)
    (hf : ∀ a, Reads r stack (f a) []) : Reads r stack (d >>= f) found := by
  have hboth := hd.bind hf
  rwa [List.append_nil] at hboth

theorem write (k : Script) : Reads r stack (.write k) (r.script stack k) := fun _ => rfl

theorem text (text : String) : Reads r stack (.say (.outText text)) [] := fun _ => r.text stack text

theorem report (severity : Severity) (here : Location) (finding : Finding) :
    Reads r stack (.say (.report severity here finding)) [] :=
  fun _ => r.report stack severity here finding

theorem fresh : Reads r stack .fresh [] := fun _ => r.generate stack

theorem within {header : Header} {d : Draft Unit} (hd : Reads r (header.inside stack) d found) :
    Reads r stack (.within header d) (r.header header ++ found) := by
  intro n
  rw [script_within, r.block, hd n]

theorem forM {γ : Type} {f : γ → Draft Unit} {found : γ → List σ} (items : List γ)
    (h : ∀ a ∈ items, Reads r stack (f a) (found a)) :
    Reads r stack (items.forM f) (items.flatMap found) := by
  induction items with
  | nil => exact pure ()
  | cons a rest ih =>
    simp only [List.forM_eq_forM, List.forM_cons, List.flatMap_cons] at ih ⊢
    exact (h a List.mem_cons_self).bind fun _ => ih fun b hb => h b (List.mem_cons_of_mem _ hb)

theorem foldr_within {d : Draft Unit} (headers : List Header)
    (hd : Reads r (Header.insideAll headers stack) d found) :
    Reads r stack (headers.foldr .within d) (headers.flatMap r.header ++ found) := by
  induction headers generalizing stack with
  | nil => exact hd
  | cons header rest ih =>
    rw [List.foldr_cons, List.flatMap_cons, List.append_assoc]
    exact within (ih hd)

/-- A script, then blocks around a draft. -/
theorem around {d : Draft Unit} {opening : Script} {headers : List Header}
    (hd : Reads r (Header.insideAll headers stack) d found) :
    Reads r stack (.around opening headers d)
      (r.script stack opening ++ (headers.flatMap r.header ++ found)) :=
  (write opening).bind fun _ => foldr_within headers hd

/-- Blocks of which the beginnings count nothing. -/
theorem around_nil {d : Draft Unit} {headers : List Header} (hnone : headers.flatMap r.header = [])
    (hd : Reads r (Header.insideAll headers stack) d found) :
    Reads r stack (.around .done headers d) found := by
  have haround : Reads r stack (.around .done headers d) _ := around hd
  rwa [r.done, hnone] at haround

/-- Items each of which writes a script and then opens blocks around what follows. -/
theorem aroundAll {γ : Type} {opening : γ → Script} {headers : γ → List Header}
    {more : γ → List σ} {d : Draft Unit} (items : List γ)
    (hitem : ∀ a ∈ items, ∀ stack,
      r.script stack (opening a) ++ (headers a).flatMap r.header = more a)
    (hd : Reads r (items.foldl (fun stack a => Header.insideAll (headers a) stack) stack) d
      found) :
    Reads r stack (items.foldr (fun a => .around (opening a) (headers a)) d)
      (items.flatMap more ++ found) := by
  induction items generalizing stack with
  | nil => exact hd
  | cons a rest ih =>
    -- The stack changes on the way in, and what is inside reads under the one at the end.
    have hrest := ih (fun b hb => hitem b (List.mem_cons_of_mem _ hb)) hd
    rw [List.foldr_cons, List.flatMap_cons, ← hitem a List.mem_cons_self stack, List.append_assoc,
      List.append_assoc]
    exact around hrest

end Reads

end Draft

end Stencil
