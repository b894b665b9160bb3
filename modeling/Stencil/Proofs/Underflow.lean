import Stencil.Proofs.Operations
import Stencil.Proofs.ScopeCalls

/-!
# Ends without declarations

The end of a block undoes declarations one after the other, and fails where none is left. What it
has undone by then stays undone: only its command is not written. So an end that undoes one
declaration fails before it changes anything, and an end that undoes more may fail halfway.

Operations are taken in any order here, and go on after one that fails. In all sessions that they
lead to, the scope is the one that some declarations make, so that undoing all of them leaves the
empty scope.

## Main definitions

* `Operation.after`, `Operation.afterAll`: the session after operations, whether they fail or not
* `Operation.FailsHalfway`: the operation fails after it has changed something

## Main results

* `Operation.consistent_after`, `Operation.consistent_afterAll`: the scope after operations
* `Operation.underflow_leaves`: when an end fails, and what it leaves
-/

namespace Stencil

namespace Session

variable {s t : Session} {declared : List (String × Declaration)} {failure : Failure}

/-! ### Undoing declarations -/

theorem run_popVariable_empty (h : s.scope = .empty) :
    popVariable.run s = .error .scopeUnderflow s := by
  simp only [popVariable, EStateM.run_bind, EStateM.run_get, h]
  rfl

theorem run_popVariable_cons {latest : String × Declaration}
    (h : s.scope = .ofDeclared (latest :: declared)) :
    popVariable.run s = .ok () { s with scope := .ofDeclared declared } :=
  run_popVariable_push (Scope.proper_ofDeclared declared) h

/-- Declarations are undone one after the other; where there are too few, all of them are. -/
theorem run_popVariables (h : s.scope = .ofDeclared declared) (n : Nat) :
    (popVariables n).run s =
      if n ≤ declared.length then .ok () { s with scope := .ofDeclared (declared.drop n) }
      else .error .scopeUnderflow { s with scope := .empty } := by
  induction n generalizing s declared with
  | zero =>
    rw [if_pos (Nat.zero_le _), List.drop_zero, ← h]
    rfl
  | succ n ih =>
    rw [popVariables, EStateM.run_bind]
    cases declared with
    | nil =>
      have hempty : s.scope = .empty := h
      rw [run_popVariable_empty hempty, if_neg (by simp), ← hempty]
    | cons latest declared =>
      rw [run_popVariable_cons h]
      have hrest : { s with scope := .ofDeclared declared }.scope = .ofDeclared declared := rfl
      simp only [ih hrest, List.length_cons, Nat.add_le_add_iff_right, List.drop_succ_cons]

/-- Undoes so many declarations, then writes the command that ends their block. -/
def undo (n : Nat) (close : Command) : Emit Unit := do
  popVariables n
  modify (write close)

theorem unbind_eq_undo : unbind = undo 1 .bindingEnd := by
  simp [unbind, undo, popVariables]

theorem endLoop_eq_undo : endLoop = undo 2 .loopEnd := by
  simp [endLoop, undo, popVariables]

theorem run_undo (h : s.scope = .ofDeclared declared) (n : Nat) (close : Command) :
    (undo n close).run s =
      if n ≤ declared.length then
        .ok () ({ s with scope := .ofDeclared (declared.drop n) }.write close)
      else .error .scopeUnderflow { s with scope := .empty } := by
  rw [undo, EStateM.run_bind, run_popVariables h]
  by_cases hn : n ≤ declared.length
  · rw [if_pos hn, if_pos hn]
    rfl
  · rw [if_neg hn, if_neg hn]

theorem run_endProcedure_nil (h : s.procedures = []) :
    endProcedure.run s = .error .scopeUnderflow s := by
  simp only [endProcedure, EStateM.run_bind, EStateM.run_get, h]
  rfl

theorem run_endProcedure_cons {count : Nat} {outer : List Nat} (h : s.procedures = count :: outer) :
    endProcedure.run s = (undo count .procedureEnd).run { s with procedures := outer } := by
  simp only [endProcedure, EStateM.run_bind, EStateM.run_get, h]
  rfl

theorem length_ofDeclared (declared : List (String × Declaration)) :
    (Scope.ofDeclared declared).length = declared.length := by
  rw [Scope.length, Scope.order_ofDeclared, List.length_map]

theorem run_undo_eq_error_iff (h : s.scope = .ofDeclared declared) (n : Nat) (close : Command) :
    (undo n close).run s = .error failure t ↔
      failure = .scopeUnderflow ∧ s.scope.length < n ∧ t = { s with scope := .empty } := by
  rw [run_undo h, h, length_ofDeclared]
  by_cases hn : n ≤ declared.length
  · rw [if_pos hn]
    simp [Nat.not_lt.2 hn]
  · rw [if_neg hn]
    simp [Nat.not_le.1 hn, eq_comm]

/-! ### The scope after any operation -/

/-- The scope is the one that some declarations make. -/
def Consistent (s : Session) : Prop :=
  ∃ declared, s.scope = .ofDeclared declared

theorem consistent_start (setup : Setup) : (start setup).Consistent := ⟨[], rfl⟩

namespace Consistent

theorem statement (h : s.Consistent) (x : Statement) : (x.run s).Consistent := by
  obtain ⟨declared, hscope⟩ := h
  exact ⟨declared, (x.level_run s).scope.trans hscope⟩

theorem declareParameters {scope : Scope Declaration} (h : scope = .ofDeclared declared)
    (parameters : List String) (here : Location) :
    ∃ more, Session.declareParameters parameters here scope = .ofDeclared more := by
  induction parameters generalizing scope declared with
  | nil => exact ⟨declared, h⟩
  | cons name rest ih =>
    have hpush : scope.push name ⟨.parameter, here⟩ =
        .ofDeclared ((name, ⟨.parameter, here⟩) :: declared) := by
      rw [h]
      rfl
    exact ih hpush

/-- The beginning of a block declares its variables after those that are declared. -/
theorem enter (h : s.Consistent) (header : Header) : (header.enter s).Consistent := by
  obtain ⟨declared, hscope⟩ := h
  obtain ⟨reports, henter⟩ := header.exists_enter s
  rw [Consistent, henter]
  cases header with
  | binding kind name value here =>
    refine ⟨(name, ⟨kind, here⟩) :: declared, ?_⟩
    simp only [Header.scopeInside, hscope]
    rfl
  | loop list item index here =>
    refine ⟨(index, ⟨.loopIndex, here⟩) :: (item, ⟨.loopItem, here⟩) :: declared, ?_⟩
    simp only [Header.scopeInside, hscope]
    rfl
  | procedure name parameters here => exact declareParameters hscope parameters here
  | conditional name expected => exact ⟨declared, hscope⟩
  | rawText => exact ⟨declared, hscope⟩

theorem begun (h : s.Consistent) (statements : List Statement) (header? : Option Header) :
    (Session.begun statements s header?).Consistent := by
  have hstated : (statements.foldl (fun s x => x.run s) s).Consistent :=
    List.foldlRecOn statements _ h fun _ ht x _ => ht.statement x
  cases header? with
  | none => exact hstated
  | some header => exact hstated.enter header

end Consistent

/-- The session in which operations end, whether they fail or not. -/
def ofResult : EStateM.Result Failure Session Unit → Session
  | .ok _ t => t
  | .error _ t => t

theorem Consistent.undo (h : s.Consistent) (n : Nat) (close : Command) :
    (ofResult ((undo n close).run s)).Consistent := by
  obtain ⟨declared, hscope⟩ := h
  rw [run_undo hscope]
  split
  · exact ⟨declared.drop n, rfl⟩
  · exact ⟨[], rfl⟩

theorem Consistent.endProcedure (h : s.Consistent) :
    (ofResult (Session.endProcedure.run s)).Consistent := by
  cases hprocedures : s.procedures with
  | nil =>
    rw [run_endProcedure_nil hprocedures]
    exact h
  | cons count outer =>
    have houter : { s with procedures := outer }.Consistent := h
    rw [run_endProcedure_cons hprocedures]
    exact houter.undo count .procedureEnd

end Session

namespace Operation

open Session (Consistent)

/-- The session in which an operation ends, whether it fails or not. -/
def after (operation : Operation) (s : Session) : Session :=
  .ofResult (operation.run.run s)

/-- The session after operations, one after the other. -/
def afterAll (operations : List Operation) (s : Session) : Session :=
  operations.foldl (fun s operation => operation.after s) s

variable {s : Session}

theorem after_eq_begun {operation : Operation} (h : operation.isEnd = false) (s : Session) :
    operation.after s = .begun (operation.statements s) s (operation.header? s) :=
  congrArg Session.ofResult (Session.run_eq_begun h s)

theorem consistent_after (h : s.Consistent) (operation : Operation) :
    (operation.after s).Consistent := by
  cases hend : operation.isEnd with
  | false =>
    rw [after_eq_begun hend]
    exact h.begun _ _
  | true =>
    cases operation with
    | leaveRawText | endConditional => exact h
    | unbind =>
      have hundo := h.undo 1 .bindingEnd
      rwa [← Session.unbind_eq_undo] at hundo
    | endLoop =>
      have hundo := h.undo 2 .loopEnd
      rwa [← Session.endLoop_eq_undo] at hundo
    | endProcedure => exact h.endProcedure
    | _ => cases hend

theorem consistent_afterAll (h : s.Consistent) (operations : List Operation) :
    (afterAll operations s).Consistent := by
  induction operations generalizing s with
  | nil => exact h
  | cons operation rest ih => exact ih (consistent_after h operation)

/-! ### Ends that fail -/

/-- Only the ends of bindings, loops and procedures can fail. -/
theorem closes_of_error {operation : Operation} {failure : Failure} {t : Session}
    (h : operation.run.run s = .error failure t) :
    operation = .unbind ∨ operation = .endLoop ∨ operation = .endProcedure := by
  cases operation with
  | unbind => exact .inl rfl
  | endLoop => exact .inr (.inl rfl)
  | endProcedure => exact .inr (.inr rfl)
  | _ => cases h

/-- The operation fails after it has changed something: one declaration is left at the end of a
loop, or fewer than the procedure has parameters at the end of a procedure. -/
def FailsHalfway (s : Session) : Operation → Prop
  | .endLoop => s.scope.length = 1
  | .endProcedure => ∃ count outer, s.procedures = count :: outer ∧ s.scope.length < count
  | _ => False

end Operation

namespace Session.Consistent

variable {s t : Session} {failure : Failure}

/-- Without declarations both views of the scope are empty. -/
theorem scope_eq_empty (h : s.Consistent) (hlength : s.scope.length = 0) : s.scope = .empty := by
  obtain ⟨declared, hscope⟩ := h
  rw [hscope, length_ofDeclared] at hlength
  rw [hscope, List.length_eq_zero_iff.1 hlength]
  rfl

theorem run_unbind_eq_error_iff (h : s.Consistent) :
    Session.unbind.run s = .error failure t ↔
      failure = .scopeUnderflow ∧ s.scope.length = 0 ∧ t = s := by
  have hempty := h.scope_eq_empty
  obtain ⟨declared, hscope⟩ := h
  rw [unbind_eq_undo, run_undo_eq_error_iff hscope, Nat.lt_one_iff]
  refine and_congr_right fun _ => and_congr_right fun hlength => ?_
  rw [← hempty hlength]

theorem run_endLoop_eq_error_iff (h : s.Consistent) :
    Session.endLoop.run s = .error failure t ↔
      failure = .scopeUnderflow ∧ s.scope.length < 2 ∧ t = { s with scope := .empty } := by
  obtain ⟨declared, hscope⟩ := h
  rw [endLoop_eq_undo, run_undo_eq_error_iff hscope]

theorem run_endProcedure_eq_error_iff (h : s.Consistent) :
    Session.endProcedure.run s = .error failure t ↔
      failure = .scopeUnderflow ∧ (s.procedures = [] ∧ t = s ∨
        ∃ count outer, s.procedures = count :: outer ∧ s.scope.length < count ∧
          t = { s with scope := .empty, procedures := outer }) := by
  obtain ⟨declared, hscope⟩ := h
  cases hprocedures : s.procedures with
  | nil =>
    rw [run_endProcedure_nil hprocedures]
    simp [eq_comm]
  | cons count outer =>
    have hinside : { s with procedures := outer }.scope = .ofDeclared declared := hscope
    rw [run_endProcedure_cons hprocedures, run_undo_eq_error_iff hinside]
    simp

end Session.Consistent

namespace Operation

/-- **Ends that fail.** Operations may come in any order and go on after one that fails. Then the
end of a binding fails just if no declaration is left, and changes nothing. The end of a loop fails
if fewer than two declarations are left, and undoes the one that is. The end of a procedure fails if
no procedure is open, and changes nothing; or if fewer declarations are left than the procedure has
parameters, and then undoes them and forgets the procedure. Nothing is ever written. So an operation
that fails leaves the session as it was unless it fails halfway, and then the scope or the
procedures are not as they were. -/
theorem underflow_leaves (setup : Setup) (operations : List Operation) :
    let s := afterAll operations (Session.start setup)
    (∀ failure t, Session.unbind.run s = .error failure t ↔
        failure = .scopeUnderflow ∧ s.scope.length = 0 ∧ t = s) ∧
      (∀ failure t, Session.endLoop.run s = .error failure t ↔
        failure = .scopeUnderflow ∧ s.scope.length < 2 ∧ t = { s with scope := .empty }) ∧
      (∀ failure t, Session.endProcedure.run s = .error failure t ↔
        failure = .scopeUnderflow ∧ (s.procedures = [] ∧ t = s ∨
          ∃ count outer, s.procedures = count :: outer ∧ s.scope.length < count ∧
            t = { s with scope := .empty, procedures := outer })) ∧
      ∀ (operation : Operation) failure t, operation.run.run s = .error failure t →
        t.stream = s.stream ∧ (¬ operation.FailsHalfway s → t = s) ∧
          (operation.FailsHalfway s → t.scope ≠ s.scope ∨ t.procedures ≠ s.procedures) := by
  intro s
  have hs : s.Consistent := consistent_afterAll (Session.consistent_start setup) operations
  refine ⟨fun _ _ => hs.run_unbind_eq_error_iff, fun _ _ => hs.run_endLoop_eq_error_iff,
    fun _ _ => hs.run_endProcedure_eq_error_iff, fun operation failure t hrun => ?_⟩
  -- Only these three can fail.
  rcases closes_of_error hrun with rfl | rfl | rfl
  · obtain ⟨-, -, rfl⟩ := hs.run_unbind_eq_error_iff.1 hrun
    exact ⟨rfl, fun _ => rfl, False.elim⟩
  · obtain ⟨-, hlength, rfl⟩ := hs.run_endLoop_eq_error_iff.1 hrun
    refine ⟨rfl, fun hwhole => ?_, fun hone => .inl fun hscope => ?_⟩
    · have hempty : s.scope.length = 0 := by
        have hne : s.scope.length ≠ 1 := hwhole
        omega
      rw [← hs.scope_eq_empty hempty]
    · have hone : s.scope.length = 1 := hone
      rw [← hscope] at hone
      cases hone
  · obtain ⟨-, ⟨hnone, rfl⟩ | ⟨count, outer, hprocedures, hlength, rfl⟩⟩ :=
      hs.run_endProcedure_eq_error_iff.1 hrun
    · refine ⟨rfl, fun _ => rfl, ?_⟩
      rintro ⟨count, outer, hprocedures, -⟩
      rw [hnone] at hprocedures
      cases hprocedures
    · refine ⟨rfl, fun hwhole => absurd ⟨count, outer, hprocedures, hlength⟩ hwhole,
        fun _ => .inr ?_⟩
      rw [hprocedures]
      exact (List.cons_ne_self count outer).symm

/-- One declaration is left for the end of a loop, and none for the end of a procedure with a
parameter. Both fail, but the declaration and the procedure are gone. -/
theorem ends_fail_halfway :
    (let s := afterAll [.bind "x" (.identifier "a") ⟨1, 1⟩] (Session.start ⟨[], [], false⟩)
      ∃ t, Session.endLoop.run s = .error .scopeUnderflow t ∧
        s.scope.order = ["x"] ∧ t.scope.order = []) ∧
      let s := afterAll [.startProcedure "card" ["title"] ⟨1, 1⟩, .unbind]
        (Session.start ⟨[], [], false⟩)
      ∃ t, Session.endProcedure.run s = .error .scopeUnderflow t ∧
        s.procedures = [1] ∧ t.procedures = [] := by
  refine ⟨⟨_, rfl, ?_, rfl⟩, _, rfl, rfl, rfl⟩
  decide +kernel

end Operation

end Stencil
