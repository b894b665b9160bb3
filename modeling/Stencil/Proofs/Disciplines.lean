import Mathlib.Data.Set.Basic
import Stencil.Proofs.Occurrences
import Stencil.Proofs.References

/-!
# Disciplines

A discipline is a set of rules for the names and values that a script writes. At each place of a
script certain facts are known, and the rules for variables and values may ask for some of them.
What a check or a binding in the rest of the document adds is known up to the end of the block
around it; what a block adds is known inside it.

## Main definitions

* `Discipline`: rules for names, variables and values
* `Discipline.Keeps`: a script keeps to the rules
* `Discipline.Admits`: a draft does so, however many names were made before

## Main results

* `Discipline.keeps_append`: scripts one after the other
* `Discipline.Admits.aroundAll`: blocks of several items around a draft
-/

namespace Stencil

/-- The variables that a block declares. -/
def Header.declaredNames (header : Header) : List String :=
  header.start?.toList.flatMap Command.declaredNames

/-- Rules for what a script writes, with facts of a kind that are known at each place of it. -/
structure Discipline (κ : Type) where
  /-- The names that a block may declare. -/
  Name : String → Prop
  /-- The names that may be bound in the rest of the document. -/
  Global : String → Prop
  /-- The variables that may be referred to where facts are known. -/
  Variable : Set κ → String → Prop
  /-- The values that may be bound where facts are known. -/
  Value : Set κ → Term → Location → Prop
  /-- The facts that the check of a term adds. -/
  checked : Term → Location → Set κ
  /-- The facts that the binding of a name in the rest of the document adds. -/
  bound : String → Set κ
  /-- The facts that a name adds inside the block that declares it. -/
  declared : String → Set κ
  variable_mono : ∀ {known more name}, known ⊆ more → Variable known name → Variable more name
  value_mono : ∀ {known more value here}, known ⊆ more → Value known value here →
    Value more value here

namespace Discipline

variable {κ : Type} (D : Discipline κ)

/-- A statement may stand where facts are known. No report is of a name: such reports come from
checks and declarations alone. -/
def Allows (known : Set κ) : Statement → Prop
  | .bindGlobal name value here => D.Global name ∧ D.Value known value here
  | .outVariable name => D.Variable known name
  | .callProcedure template arguments => D.Variable known template ∧ D.Variable known arguments
  | .report _ _ finding => finding.isOfName = false
  | _ => True

/-- The facts that a statement adds. -/
def after : Statement → Set κ
  | .check root here => D.checked root here
  | .bindGlobal name _ _ => D.bound name
  | _ => ∅

/-- A block may begin where facts are known. -/
def Opens (known : Set κ) : Header → Prop
  | .binding _ name value here => D.Name name ∧ D.Value known value here
  | .conditional name _ => D.Variable known name
  | .loop list item index _ => D.Variable known list ∧ D.Name item ∧ D.Name index
  | .procedure name parameters _ => D.Name name ∧ ∀ parameter ∈ parameters, D.Name parameter
  | .rawText => True

/-- The facts that a block adds inside. -/
def inside (header : Header) : Set κ :=
  {fact | ∃ name ∈ header.declaredNames, fact ∈ D.declared name}

/-- Several blocks may begin one inside the other, the first of them outermost. -/
def OpensAll : Set κ → List Header → Prop
  | _, [] => True
  | known, header :: rest => D.Opens known header ∧ OpensAll (known ∪ D.inside header) rest

/-- A script keeps to the rules. -/
def Keeps : Set κ → Script → Prop
  | _, .done => True
  | known, .statement x next => D.Allows known x ∧ Keeps (known ∪ D.after x) next
  | known, .block header body next =>
    -- What is known inside a block is not known behind it.
    D.Opens known header ∧ Keeps (known ∪ D.inside header) body ∧ Keeps known next

/-- The facts that are known after a script. -/
def knownAfter : Set κ → Script → Set κ
  | known, .done => known
  | known, .statement x next => knownAfter (known ∪ D.after x) next
  | known, .block _ _ next => knownAfter known next

variable {D} {known more : Set κ}

theorem declared_subset {header : Header} {name : String} (hinside : D.inside header ⊆ known)
    (h : name ∈ header.declaredNames) : D.declared name ⊆ known :=
  fun _ hfact => hinside ⟨name, h, hfact⟩

theorem allows_mono (hsub : known ⊆ more) {x : Statement} (h : D.Allows known x) :
    D.Allows more x := by
  cases x with
  | bindGlobal name value here => exact h.imp_right (D.value_mono hsub)
  | outVariable name => exact D.variable_mono hsub h
  | callProcedure template arguments => exact h.imp (D.variable_mono hsub) (D.variable_mono hsub)
  | _ => exact h

theorem opens_mono (hsub : known ⊆ more) {header : Header} (h : D.Opens known header) :
    D.Opens more header := by
  cases header with
  | binding kind name value here => exact h.imp_right (D.value_mono hsub)
  | conditional name expected => exact D.variable_mono hsub h
  | loop list item index here => exact h.imp_left (D.variable_mono hsub)
  | _ => exact h

theorem keeps_mono {k : Script} (hsub : known ⊆ more) (h : D.Keeps known k) : D.Keeps more k := by
  induction k generalizing known more with
  | done => trivial
  | statement x next ih =>
    exact ⟨allows_mono hsub h.1, ih (Set.union_subset_union_left _ hsub) h.2⟩
  | block header body next hbody ih =>
    exact ⟨opens_mono hsub h.1, hbody (Set.union_subset_union_left _ hsub) h.2.1, ih hsub h.2.2⟩

theorem subset_knownAfter (k : Script) (known : Set κ) : known ⊆ D.knownAfter known k := by
  induction k generalizing known with
  | done => exact Set.Subset.rfl
  | statement x next ih => exact Set.Subset.trans Set.subset_union_left (ih _)
  | block header body next _ ih => exact ih known

theorem keeps_append {first second : Script} :
    D.Keeps known (first ++ second) ↔
      D.Keeps known first ∧ D.Keeps (D.knownAfter known first) second := by
  induction first generalizing known with
  | done => exact (iff_of_eq (true_and _)).symm
  | statement x next ih =>
    rw [Script.statement_append, Keeps, ih]
    simp only [Keeps, knownAfter, and_assoc]
  | block header body next _ ih =>
    rw [Script.block_append, Keeps, ih]
    simp only [Keeps, knownAfter, and_assoc]

/-! ### Drafts -/

variable {α β : Type}

/-- However many names were made before, the script of a draft keeps to the rules. -/
structure Admits (D : Discipline κ) (known : Set κ) (d : Draft α) : Prop where
  script : ∀ n, D.Keeps known (d.script n)

namespace Admits

variable {d : Draft α}

theorem pure (a : α) : D.Admits known (Pure.pure a : Draft α) := ⟨fun _ => trivial⟩

/-- What comes after has to be admitted for the results that the draft can have, with what is known
then. -/
theorem bind_value {f : α → Draft β} (hd : D.Admits known d)
    (hf : ∀ n, D.Admits (D.knownAfter known (d.script n)) (f (d.value n))) :
    D.Admits known (d >>= f) :=
  ⟨fun n => keeps_append.2 ⟨hd.script n, (hf n).script _⟩⟩

theorem mono (hd : D.Admits known d) (hsub : known ⊆ more) : D.Admits more d :=
  ⟨fun n => keeps_mono hsub (hd.script n)⟩

theorem bind {f : α → Draft β} (hd : D.Admits known d) (hf : ∀ a, D.Admits known (f a)) :
    D.Admits known (d >>= f) :=
  hd.bind_value fun n => (hf _).mono (subset_knownAfter (d.script n) known)

theorem write {k : Script} (h : D.Keeps known k) : D.Admits known (.write k) := ⟨fun _ => h⟩

theorem say {x : Statement} (h : D.Allows known x) : D.Admits known (.say x) :=
  ⟨fun _ => ⟨h, trivial⟩⟩

theorem text (text : String) : D.Admits known (.say (.outText text)) :=
  ⟨fun _ => ⟨trivial, trivial⟩⟩

theorem outVariable {name : String} (h : D.Variable known name) :
    D.Admits known (.say (.outVariable name)) :=
  ⟨fun _ => ⟨h, trivial⟩⟩

theorem report (severity : Severity) (here : Location) {finding : Finding}
    (h : finding.isOfName = false) : D.Admits known (.say (.report severity here finding)) :=
  ⟨fun _ => ⟨h, trivial⟩⟩

theorem fresh : D.Admits known .fresh := ⟨fun _ => ⟨trivial, trivial⟩⟩

theorem bind_fresh {f : String → Draft β} (hf : ∀ n, D.Admits known (f (Session.symbol n))) :
    D.Admits known (.fresh >>= f) :=
  fresh.bind_value fun n => (hf n).mono (subset_knownAfter _ known)

theorem within {header : Header} {d : Draft Unit} (hheader : D.Opens known header)
    (hd : D.Admits (known ∪ D.inside header) d) : D.Admits known (.within header d) :=
  ⟨fun n => ⟨hheader, hd.script n, trivial⟩⟩

theorem forM {γ : Type} {f : γ → Draft Unit} (items : List γ)
    (h : ∀ a ∈ items, D.Admits known (f a)) : D.Admits known (items.forM f) := by
  induction items with
  | nil => exact pure ()
  | cons a rest ih =>
    simp only [List.forM_eq_forM, List.forM_cons] at ih ⊢
    exact (h a List.mem_cons_self).bind fun _ => ih fun b hb => h b (List.mem_cons_of_mem _ hb)

theorem foldr_within {d : Draft Unit} {headers : List Header} (hheaders : D.OpensAll known headers)
    (hd : ∀ more, known ⊆ more → (∀ header ∈ headers, D.inside header ⊆ more) → D.Admits more d) :
    D.Admits known (headers.foldr .within d) := by
  induction headers generalizing known with
  | nil => exact hd known Set.Subset.rfl (List.forall_mem_nil _)
  | cons header rest ih =>
    refine within hheaders.1 (ih hheaders.2 fun more hsub hrest => ?_)
    obtain ⟨hknown, hheader⟩ := Set.union_subset_iff.1 hsub
    exact hd more hknown (List.forall_mem_cons.2 ⟨hheader, hrest⟩)

/-- A script, then blocks around a draft. -/
theorem around {d : Draft Unit} {opening : Script} {headers : List Header}
    (hopening : D.Keeps known opening) (hheaders : D.OpensAll (D.knownAfter known opening) headers)
    (hd : ∀ more, known ⊆ more → (∀ header ∈ headers, D.inside header ⊆ more) → D.Admits more d) :
    D.Admits known (.around opening headers d) := by
  have hinside : D.Admits (D.knownAfter known opening) (headers.foldr .within d) :=
    foldr_within hheaders fun more hsub =>
      hd more (Set.Subset.trans (subset_knownAfter opening known) hsub)
  exact (write hopening).bind_value fun _ => hinside

/-- Items each of which writes a script and then opens blocks around what follows. Inside, all is
known that the blocks add. -/
theorem aroundAll {γ : Type} {opening : γ → Script} {headers : γ → List Header} {d : Draft Unit}
    (items : List γ) (hopening : ∀ a ∈ items, ∀ more, known ⊆ more → D.Keeps more (opening a))
    (hheaders : ∀ a ∈ items, ∀ more, known ⊆ more →
      D.OpensAll (D.knownAfter more (opening a)) (headers a))
    (hd : ∀ more, known ⊆ more →
      (∀ a ∈ items, ∀ header ∈ headers a, D.inside header ⊆ more) → D.Admits more d) :
    D.Admits known (items.foldr (fun a => .around (opening a) (headers a)) d) := by
  induction items generalizing known with
  | nil => exact hd known Set.Subset.rfl (List.forall_mem_nil _)
  | cons a rest ih =>
    -- The blocks of the first item are around all others, so they only add to what is known.
    obtain ⟨hfirst, hopening⟩ := List.forall_mem_cons.1 hopening
    obtain ⟨hblocks, hheaders⟩ := List.forall_mem_cons.1 hheaders
    refine around (hfirst known Set.Subset.rfl) (hblocks known Set.Subset.rfl)
      fun more hsub hown => ?_
    have hmore {later : Set κ} (hlater : more ⊆ later) : known ⊆ later :=
      Set.Subset.trans hsub hlater
    refine ih (fun b hb later hlater => hopening b hb later (hmore hlater))
      (fun b hb later hlater => hheaders b hb later (hmore hlater)) ?_
    intro later hlater hrest
    refine hd later (hmore hlater) (List.forall_mem_cons.2 ⟨fun header hheader => ?_, hrest⟩)
    exact Set.Subset.trans (hown header hheader) hlater

end Admits

end Discipline

end Stencil
