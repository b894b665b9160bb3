import Stencil.Proofs.Steps
import Stencil.Proofs.Underflow

/-!
# Names declared again for the whole document

A session keeps one location for each name of the document, and every declaration of the name puts
its own location there. So a name that is declared again is reported with the declaration before it.
That is the first one for the second declaration; from the third one on it is not, unless both stand
at one location.

## Main definitions

* `Operation.documentName?`: the name that an operation declares for the whole document
* `Operation.placesOf`: where operations declare a name, first to last

## Main results

* `Operation.globals_after`: what one operation does to the names of the document
* `Operation.find?_globals_afterAll`: the location that is kept after operations
* `Operation.redeclares_latest`: what a declaration reports
-/

namespace Stencil

namespace Session

variable {s : Session}

/-! ### What keeps the names of the document -/

theorem globals_checkNames (root : Term) (here : Location) (s : Session) :
    (s.checkNames root here).globals = s.globals := by
  obtain ⟨reports, h⟩ := exists_checkNames root here s
  rw [h]

theorem globals_enter (header : Header) (s : Session) : (header.enter s).globals = s.globals := by
  obtain ⟨reports, h⟩ := header.exists_enter s
  rw [h]

theorem globals_begun (statements : List Statement) (header? : Option Header) (s : Session) :
    (begun statements s header?).globals = (statements.foldl (fun s x => x.run s) s).globals := by
  cases header? with
  | none => rfl
  | some header => exact globals_enter header _

theorem Consistent.globals_undo (h : s.Consistent) (n : Nat) (close : Command) :
    (ofResult ((Session.undo n close).run s)).globals = s.globals := by
  obtain ⟨declared, hscope⟩ := h
  rw [run_undo hscope]
  split <;> rfl

theorem Consistent.globals_endProcedure (h : s.Consistent) :
    (ofResult (Session.endProcedure.run s)).globals = s.globals := by
  cases hprocedures : s.procedures with
  | nil =>
    rw [run_endProcedure_nil hprocedures]
    rfl
  | cons count outer =>
    have houter : { s with procedures := outer }.Consistent := h
    rw [run_endProcedure_cons hprocedures]
    exact houter.globals_undo count .procedureEnd

/-- A declaration is reported with the location that is kept for its name. -/
theorem diagnostics_declareGlobal (name : String) (here : Location) (s : Session) :
    (s.declareGlobal name here).diagnostics =
      s.diagnostics ++ ((s.globals.find? (Text.lower name)).map fun previous =>
        (⟨.info, here, .redeclares name previous⟩ : Diagnostic)).toList := by
  rw [declareGlobal]
  cases s.globals.find? (Text.lower name) with
  | none => exact (List.append_nil _).symm
  | some previous => exact List.reverse_cons

end Session

namespace Operation

/-- The name that an operation declares for the whole document, and where. -/
def documentName? : Operation → Option (String × Location)
  | .declareGlobal name here => some (name, here)
  | .bindGlobal name _ here => some (name, here)
  | _ => none

/-- Where an operation declares the name that is `key` in lower case. -/
def declaredAt? (key : String) (operation : Operation) : Option Location :=
  operation.documentName?.bind fun (name, here) => if Text.lower name = key then some here else none

/-- Where operations declare the name that is `key` in lower case, first to last. -/
def placesOf (key : String) (operations : List Operation) : List Location :=
  operations.filterMap (declaredAt? key)

variable {s : Session}

/-- Only a declaration for the whole document touches the names of the document. -/
theorem globals_after (h : s.Consistent) (operation : Operation) :
    (operation.after s).globals =
      match operation.documentName? with
      | some (name, here) => s.globals.insert (Text.lower name) here
      | none => s.globals := by
  cases hend : operation.isEnd with
  | false =>
    rw [after_eq_begun hend, Session.globals_begun]
    cases operation with
    | declareGlobal name here => exact s.globals_declareGlobal name here
    | bindGlobal name value here => exact Session.globals_declareGlobal name here _
    | transform e placement? here => exact Session.globals_checkNames _ here s
    | transformText e here =>
      refine (Session.globals_checkNames _ here _).trans ?_
      dsimp only [Statement.run, documentName?]
      split <;> rfl
    | leaveRawText | unbind | endConditional | endLoop | endProcedure => cases hend
    | _ => rfl
  | true =>
    -- What ends gives back names, and those of the document are not among them.
    cases operation with
    | leaveRawText | endConditional => rfl
    | unbind =>
      have hundo := h.globals_undo 1 .bindingEnd
      rwa [← Session.unbind_eq_undo] at hundo
    | endLoop =>
      have hundo := h.globals_undo 2 .loopEnd
      rwa [← Session.endLoop_eq_undo] at hundo
    | endProcedure => exact h.globals_endProcedure
    | _ => cases hend

theorem find?_globals_after (h : s.Consistent) (operation : Operation) (key : String) :
    (operation.after s).globals.find? key =
      (operation.declaredAt? key).or (s.globals.find? key) := by
  rw [globals_after h, declaredAt?]
  cases operation.documentName? with
  | none => rfl
  | some naming =>
    obtain ⟨name, here⟩ := naming
    dsimp only [Option.bind_some]
    rw [Entries.find?_insert]
    by_cases hkey : Text.lower name = key
    · rw [if_pos hkey.symm, if_pos hkey, Option.some_or]
    · rw [if_neg (Ne.symm hkey), if_neg hkey, Option.none_or]

/-- After operations the location of the latest declaration is kept. -/
theorem find?_globals_afterAll (h : s.Consistent) (operations : List Operation) (key : String) :
    (afterAll operations s).globals.find? key =
      (placesOf key operations).getLast?.or (s.globals.find? key) := by
  induction operations generalizing s with
  | nil => rfl
  | cons operation rest ih =>
    refine (ih (consistent_after h operation)).trans ?_
    rw [find?_globals_after h, placesOf, placesOf, List.filterMap_cons]
    cases operation.declaredAt? key with
    | none => rw [Option.none_or]
    | some place =>
      rw [List.getLast?_cons, Option.some_or]
      cases (rest.filterMap _).getLast? <;> rfl

theorem diagnostics_after {operation : Operation} {name : String} {here : Location}
    (h : operation.documentName? = some (name, here)) (s : Session) :
    (operation.after s).diagnostics =
      s.diagnostics ++ ((s.globals.find? (Text.lower name)).map fun previous =>
        (⟨.info, here, .redeclares name previous⟩ : Diagnostic)).toList := by
  cases operation with
  | declareGlobal other place =>
    cases h
    exact s.diagnostics_declareGlobal name here
  | bindGlobal other value place =>
    cases h
    exact Session.diagnostics_declareGlobal name here _
  | _ => cases h

/-- **Names declared again.** Let an operation declare a name for the whole document, after any other
operations. If none of these declares the name, in whatever case, nothing is reported. Otherwise
there is one report more, at the location of the declaration, and it gives the location of the
latest declaration before it. So it gives the first one just if both stand at one location, as they
do for the second declaration. -/
theorem redeclares_latest (setup : Setup) (before : List Operation) {operation : Operation}
    {name : String} {here : Location} (h : operation.documentName? = some (name, here)) :
    let s := afterAll before (Session.start setup)
    let places := placesOf (Text.lower name) before
    (places = [] → (operation.after s).diagnostics = s.diagnostics) ∧
      ∀ first, places.head? = some first → ∃ latest, places.getLast? = some latest ∧
        (operation.after s).diagnostics =
          s.diagnostics ++ [⟨.info, here, .redeclares name latest⟩] ∧
        ((operation.after s).diagnostics =
          s.diagnostics ++ [⟨.info, here, .redeclares name first⟩] ↔ latest = first) := by
  intro s places
  have hkept : s.globals.find? (Text.lower name) = places.getLast? :=
    (find?_globals_afterAll (Session.consistent_start setup) before _).trans (Option.or_none ..)
  have hadded := diagnostics_after h s
  rw [hkept] at hadded
  refine ⟨fun hnone => ?_, fun first hfirst => ?_⟩
  · rw [hadded, hnone]
    exact List.append_nil _
  · have hne : places ≠ [] := by
      intro hnil
      rw [hnil] at hfirst
      cases hfirst
    have hlatest := List.getLast?_eq_some_getLast hne
    rw [hlatest] at hadded
    refine ⟨_, hlatest, hadded, ?_⟩
    rw [hadded, List.append_cancel_left_eq]
    simp

/-- Two declarations of one name in different cases, with an operation between them that fails. -/
def declaredTwice : List Operation :=
  [.declareGlobal "card" ⟨1, 1⟩, .endLoop, .bindGlobal "Card" (.identifier "x") ⟨2, 1⟩]

theorem redeclares_latest_card :
    (bindGlobal "CARD" .null ⟨3, 1⟩).documentName? = some ("CARD", ⟨3, 1⟩) ∧
      placesOf (Text.lower "CARD") declaredTwice = [⟨1, 1⟩, ⟨2, 1⟩] ∧
      let s := afterAll declaredTwice (Session.start ⟨[], [], false⟩)
      ((bindGlobal "CARD" .null ⟨3, 1⟩).after s).diagnostics =
        s.diagnostics ++ [⟨.info, ⟨3, 1⟩, .redeclares "CARD" ⟨2, 1⟩⟩] := by
  have hplaces : placesOf (Text.lower "CARD") declaredTwice = [⟨1, 1⟩, ⟨2, 1⟩] := by decide +kernel
  have hname : (bindGlobal "CARD" .null ⟨3, 1⟩).documentName? = some ("CARD", ⟨3, 1⟩) := rfl
  obtain ⟨-, hagain⟩ := redeclares_latest ⟨[], [], false⟩ declaredTwice hname
  rw [hplaces] at hagain
  obtain ⟨latest, hlatest, hadded, -⟩ := hagain ⟨1, 1⟩ rfl
  cases hlatest
  exact ⟨hname, hplaces, hadded⟩

/-- The third declaration of a name is reported with the second one. -/
theorem third_redeclares_second :
    let s := afterAll declaredTwice (Session.start ⟨[], [], false⟩)
    let t := (declareGlobal "card" ⟨3, 1⟩).after s
    (placesOf "card" declaredTwice).head? = some ⟨1, 1⟩ ∧
      t.diagnostics ≠ s.diagnostics ++ [⟨.info, ⟨3, 1⟩, .redeclares "card" ⟨1, 1⟩⟩] ∧
      t.diagnostics.map Diagnostic.render =
        ["2:1: info: 'Card' redeclares the global name first declared at 1:1",
          "3:1: info: 'card' redeclares the global name first declared at 2:1"] := by
  decide +kernel

end Operation

end Stencil
