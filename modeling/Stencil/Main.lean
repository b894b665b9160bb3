import Stencil.Tool.Run

/-!
# The command line

Runs the tool on the files of the system.
-/

namespace Stencil.Tool

/-- What the system says about a file that cannot be used. Its code may come with either sign. -/
def faultOf : IO.Error → SystemFault
  | .noFileOrDirectory .. => .noEntry
  | .inappropriateType _ code _ =>
    if code = 21 || code = 0 - 21 then .isDirectory else .notDirectory
  | error => .other (toString error)

/-- The result of an action, or what the system says about it. -/
def attempt {α : Type} (action : IO α) : IO (Except SystemFault α) := do
  try
    return .ok (← action)
  catch error =>
    return .error (faultOf error)

/-- Whether there is a directory. -/
def isSystemDirectory (path : String) : IO Bool := do
  ((← IO.currentDir) / path).isDir

/-- The files below a directory, at each level in the order of names. -/
partial def systemFilesBelow (path : String) : IO (List String) := do
  let entries ← ((← IO.currentDir) / path).readDir
  let names := (entries.toList.map (·.fileName)).mergeSort fun a b => !decide (b < a)
  let found ← names.mapM fun name => do
    let below := joinPath path name
    if ← isSystemDirectory below then systemFilesBelow below else return [below]
  return found.flatten

/-- The system as a host. -/
def system : Host IO where
  read path := attempt do
    return (← IO.FS.readBinFile path).toList
  create path := attempt (IO.FS.writeFile path "")
  write path text := attempt (IO.FS.writeFile path text)
  isDirectory := isSystemDirectory
  filesBelow := systemFilesBelow
  now := do
    return some (← IO.monoMsNow)

end Stencil.Tool

/-- Runs the tool and prints what it gives. -/
def main (arguments : List String) : IO UInt32 := do
  let outcome ← Stencil.Tool.run Stencil.Tool.system arguments
  IO.print outcome.console.stdout
  outcome.console.stderr.forM fun line => IO.eprintln line
  return UInt32.ofNat outcome.exitCode
