import Stencil.Proofs.ScopeStack

/-!
# Scopes under calls

A scope keeps each declaration twice, under its name and in the order of all declarations. Seen from
outside it is one list of names in lower case with their data: a declaration is put at the end, the
end is taken away, and each question has the answer that this list gives. Calls that find nothing to
undo fail and change nothing.

Both the scope and the list are driven by the same calls. After them the scope is the one that the
declarations still in force make by themselves: what was declared and undone has left no trace in
either of its views.

## Main definitions

* `Scope.Call`: a declaration, or the undoing of one
* `Scope.Stack.run`: what calls make of a stack, and what they give back
* `Scope.scopes`, `Scope.pairs`: scopes and lists of pairs as stacks
* `Scope.Shows`: each question to a scope has the answer that a list of pairs gives

## Main results

* `Scope.Stack.run_related`: stacks that agree call by call agree on all calls
* `Scope.shows_ofDeclared`: a scope shows the declarations that it is made by
* `Scope.run_shows`: after any calls, a scope shows the list
-/

namespace Stencil.Scope

/-- A call that changes what is declared. -/
inductive Call (α : Type) where
  | push (name : String) (data : α)
  /-- Undoes the latest declaration. -/
  | pop

/-- Something on which declarations are put and from which they are taken. -/
structure Stack (σ α : Type) where
  push : σ → String → α → σ
  /-- The name of what is taken away and the stack without it, or nothing if that fails. -/
  pop? : σ → Option (String × σ)

namespace Stack

variable {σ τ α : Type}

/-- The stack after calls, and what each `pop` among them gives. One that fails changes nothing. -/
def run (stack : Stack σ α) (state : σ) : List (Call α) → σ × List (Option String)
  | [] => (state, [])
  | .push name data :: rest => stack.run (stack.push state name data) rest
  | .pop :: rest =>
    let popped := stack.pop? state
    let after := stack.run (popped.elim state (·.2)) rest
    (after.1, popped.map (·.1) :: after.2)

/-- Stacks whose states stay related, and whose calls give back the same, do so over all calls. -/
theorem run_related {first : Stack σ α} {second : Stack τ α} {R : σ → τ → Prop}
    (hpush : ∀ {s t}, R s t → ∀ name data, R (first.push s name data) (second.push t name data))
    (hpop : ∀ {s t}, R s t → (first.pop? s).map (·.1) = (second.pop? t).map (·.1) ∧
      R ((first.pop? s).elim s (·.2)) ((second.pop? t).elim t (·.2)))
    {s : σ} {t : τ} (h : R s t) (calls : List (Call α)) :
    (first.run s calls).2 = (second.run t calls).2 ∧
      R (first.run s calls).1 (second.run t calls).1 := by
  induction calls generalizing s t with
  | nil => exact ⟨rfl, h⟩
  | cons call rest ih =>
    cases call with
    | push name data => exact ih (hpush h name data)
    | pop =>
      -- Both give the same name, or neither gives any and both stay.
      obtain ⟨hname, hnext⟩ := hpop h
      obtain ⟨hnames, hlast⟩ := ih hnext
      exact ⟨List.cons_eq_cons.2 ⟨hname, hnames⟩, hlast⟩

end Stack

variable {α : Type}

/-- Scopes as stacks. -/
def scopes : Stack (Scope α) α := ⟨push, pop?⟩

/-- Lists of names in lower case with their data, the latest last. -/
def pairs : Stack (List (String × α)) α where
  push kept name data := kept ++ [(Text.lower name, data)]
  pop? kept := kept.getLast?.map fun last => (last.1, kept.dropLast)

/-- The data of the pairs with a name, in the order in which they were put in. -/
def dataOf (kept : List (String × α)) (name : String) : List α :=
  (kept.filter fun pair => pair.1 = Text.lower name).map (·.2)

/-- Each question to a scope has the answer that the list of pairs gives. -/
structure Shows (kept : List (String × α)) (scope : Scope α) : Prop where
  pop : scope.pop?.map (·.1) = kept.getLast?.map (·.1)
  peek : scope.peek? = kept.getLast?
  all (name : String) : scope.all name = dataOf kept name
  get (name : String) : scope.get? name = (dataOf kept name).getLast?
  count (name : String) : scope.count name = (dataOf kept name).length
  declares (name : String) : scope.declares name = true ↔ dataOf kept name ≠ []
  length : scope.length = kept.length
  isEmpty : scope.isEmpty = kept.isEmpty
  /-- There is a latest declaration unless there is none at all. -/
  peek_isSome : scope.peek?.isSome = !scope.isEmpty

/-! ### The scope of declarations -/

/-- The scope that declarations make, the latest first. -/
def ofDeclared : List (String × α) → Scope α
  | [] => empty
  | latest :: earlier => (ofDeclared earlier).push latest.1 latest.2

/-- The pairs of declarations, the latest last. -/
def pairsOf (declared : List (String × α)) : List (String × α) :=
  (declared.map fun declaration => (Text.lower declaration.1, declaration.2)).reverse

theorem pairsOf_cons (latest : String × α) (earlier : List (String × α)) :
    pairsOf (latest :: earlier) = pairsOf earlier ++ [(Text.lower latest.1, latest.2)] :=
  List.reverse_cons

theorem proper_ofDeclared (declared : List (String × α)) : (ofDeclared declared).Proper := by
  induction declared with
  | nil => exact proper_empty
  | cons latest earlier ih => exact ih.push latest.1 latest.2

theorem order_ofDeclared (declared : List (String × α)) :
    (ofDeclared declared).order = declared.map fun declaration => Text.lower declaration.1 := by
  induction declared with
  | nil => rfl
  | cons latest earlier ih => exact congrArg (Text.lower latest.1 :: ·) ih

/-- A declaration comes in front of those of its name, and changes nothing for other names. -/
theorem under_push (scope : Scope α) (name : String) (data : α) (key : String) :
    (scope.push name data).under key =
      if Text.lower name = key then data :: scope.under key else scope.under key := by
  rw [under, push, Entries.find?_insert]
  by_cases hkey : Text.lower name = key
  · subst hkey
    rw [if_pos rfl, if_pos rfl, Option.getD_some]
  · rw [if_neg (Ne.symm hkey), if_neg hkey, under]

theorem under_ofDeclared (declared : List (String × α)) (key : String) :
    (ofDeclared declared).under key =
      (declared.filter fun declaration => Text.lower declaration.1 = key).map (·.2) := by
  induction declared with
  | nil => rfl
  | cons latest earlier ih =>
    rw [ofDeclared, under_push, ih]
    by_cases hkey : Text.lower latest.1 = key
    · rw [if_pos hkey, List.filter_cons_of_pos (by simpa using hkey), List.map_cons]
    · rw [if_neg hkey, List.filter_cons_of_neg (by simpa using hkey)]

theorem all_ofDeclared (declared : List (String × α)) (name : String) :
    (ofDeclared declared).all name = dataOf (pairsOf declared) name := by
  rw [all, under_ofDeclared, dataOf, pairsOf, List.filter_reverse, List.map_reverse,
    List.filter_map, List.map_map]
  rfl

/-- A name is declared just if there are declarations under it: none of the entries is empty. -/
theorem Proper.declares_iff {scope : Scope α} (h : scope.Proper) (name : String) :
    scope.declares name = true ↔ scope.all name ≠ [] := by
  rw [declares, Entries.contains, all, under, ne_eq, List.reverse_eq_nil_iff]
  cases hfind : scope.byName.find? (Text.lower name) with
  | none => simp
  | some kept =>
    have hkept : kept ≠ [] := by
      rintro rfl
      exact h.nonempty _ hfind
    simpa using hkept

theorem get?_eq (scope : Scope α) (name : String) :
    scope.get? name = (scope.all name).getLast? := by
  rw [get?, all, List.getLast?_reverse]

/-- The latest declaration of all is the latest one under its name. -/
theorem peek?_ofDeclared (declared : List (String × α)) :
    (ofDeclared declared).peek? = (pairsOf declared).getLast? := by
  cases declared with
  | nil => rfl
  | cons latest earlier =>
    have hunder : (ofDeclared (latest :: earlier)).under (Text.lower latest.1) =
        latest.2 :: (ofDeclared earlier).under (Text.lower latest.1) := by
      rw [ofDeclared, under_push, if_pos rfl]
    have hpeek : (ofDeclared (latest :: earlier)).peek? = some (Text.lower latest.1, latest.2) := by
      rw [peek?, order_ofDeclared, List.map_cons, List.head?_cons]
      simp only [Option.bind_eq_bind, Option.bind_some, hunder, List.head?_cons]
      rfl
    rw [hpeek, pairsOf_cons, List.getLast?_concat]

theorem pop?_ofDeclared_cons (latest : String × α) (earlier : List (String × α)) :
    (ofDeclared (latest :: earlier)).pop? = some (Text.lower latest.1, ofDeclared earlier) :=
  pop?_push (proper_ofDeclared earlier) latest.1 latest.2

/-- A scope shows the declarations that it is made by. -/
theorem shows_ofDeclared (declared : List (String × α)) :
    Shows (pairsOf declared) (ofDeclared declared) where
  pop := by
    cases declared with
    | nil => rfl
    | cons latest earlier =>
      rw [pop?_ofDeclared_cons, pairsOf_cons, List.getLast?_concat]
      rfl
  peek := peek?_ofDeclared declared
  all := all_ofDeclared declared
  get name := by rw [get?_eq, all_ofDeclared]
  count name := by rw [count, all_ofDeclared]
  declares name := by rw [(proper_ofDeclared declared).declares_iff, all_ofDeclared]
  length := by rw [length, order_ofDeclared, pairsOf, List.length_reverse, List.length_map,
    List.length_map]
  isEmpty := by
    cases declared with
    | nil => rfl
    | cons latest earlier =>
      rw [isEmpty, order_ofDeclared, pairsOf_cons]
      simp
  peek_isSome := by
    rw [peek?_ofDeclared, isEmpty, order_ofDeclared]
    cases declared with
    | nil => rfl
    | cons latest earlier =>
      rw [pairsOf_cons, List.getLast?_concat]
      rfl

/-! ### Any calls -/

/-- The scope and the list are those of the same declarations. -/
def Related (scope : Scope α) (kept : List (String × α)) : Prop :=
  ∃ declared, scope = ofDeclared declared ∧ kept = pairsOf declared

variable {scope : Scope α} {kept : List (String × α)}

theorem Related.push (h : Related scope kept) (name : String) (data : α) :
    Related (scopes.push scope name data) (pairs.push kept name data) := by
  obtain ⟨declared, rfl, rfl⟩ := h
  exact ⟨(name, data) :: declared, rfl, (pairsOf_cons (name, data) declared).symm⟩

theorem Related.pop (h : Related scope kept) :
    (scopes.pop? scope).map (·.1) = (pairs.pop? kept).map (·.1) ∧
      Related ((scopes.pop? scope).elim scope (·.2)) ((pairs.pop? kept).elim kept (·.2)) := by
  obtain ⟨declared, rfl, rfl⟩ := h
  cases declared with
  | nil => exact ⟨rfl, [], rfl, rfl⟩
  | cons latest earlier =>
    have hscope : scopes.pop? (ofDeclared (latest :: earlier)) =
        some (Text.lower latest.1, ofDeclared earlier) := pop?_ofDeclared_cons latest earlier
    have hpairs : pairs.pop? (pairsOf (latest :: earlier)) =
        some (Text.lower latest.1, pairsOf earlier) := by
      simp [pairs, pairsOf_cons]
    rw [hscope, hpairs]
    exact ⟨rfl, earlier, rfl, rfl⟩

/-- **One stack.** Whatever is pushed and popped, and whichever pops fail, a scope gives back what
the list of names in lower case with their data gives back, and after that answers each question as
this list does. -/
theorem run_shows (calls : List (Call α)) :
    let scope := scopes.run empty calls
    let list := pairs.run [] calls
    scope.2 = list.2 ∧ Shows list.1 scope.1 := by
  have hstart : Related (empty : Scope α) [] := ⟨[], rfl, rfl⟩
  obtain ⟨hgiven, declared, hscope, hlist⟩ :=
    Stack.run_related Related.push Related.pop hstart calls
  refine ⟨hgiven, ?_⟩
  rw [hscope, hlist]
  exact shows_ofDeclared declared

end Stencil.Scope
