import Stencil.Command.Forms
import Stencil.Tool.Host
import Stencil.Tool.Settings

/-!
# The command line tool

The tool compiles a template, checks templates, or shows the tree of one. It works on any host and
gives what it prints and its exit code.

## Main definitions

* `Outcome`: what the tool prints, and its exit code
* `run`: the tool on arguments
-/

namespace Stencil.Tool

/-- The name of the tool. -/
def toolName : String := "slyc"

/-- The version of the tool. -/
def toolVersion : String := "0.1.0"

/-- What the tool does, in one line. -/
def toolDescription : String :=
  "Sly template compiler - compile HTML templates with data-sly directives into a command stream"

/-- What the tool has printed. -/
structure Console where
  stdout : String
  /-- The lines of error output. -/
  stderr : List String
  deriving DecidableEq, Repr

/-- What runs on a host, prints, and may fail. -/
abbrev Job (m : Type → Type) := ExceptT Failure (StateT Console m)

/-- What the tool prints, and its exit code. -/
structure Outcome where
  exitCode : Nat
  console : Console
  deriving DecidableEq, Repr

variable {m : Type → Type} [Monad m]

namespace Job

/-- Prints text. -/
def print (text : String) : Job m Unit :=
  modify fun console => { console with stdout := console.stdout ++ text }

/-- Prints lines of error output. -/
def printError (text : String) : Job m Unit :=
  modify fun console => { console with stderr := console.stderr ++ text.splitOn "\n" }

/-- What the host answers. -/
def ask {α : Type} (question : m α) : Job m α :=
  liftM question

/-- The result of a step, or its fault as a failure. -/
def require {ε α : Type} (failure : ε → Failure) : Except ε α → Job m α
  | .ok value => pure value
  | .error fault => throw (failure fault)

end Job

/-- The failure to read a file: a directory can be opened and not read. -/
def inputFailure (path : String) : SystemFault → Failure
  | .isDirectory => .system .isDirectory
  | fault => .noInput path fault

/-- The bytes of an input. -/
def readInput (host : Host m) (path : String) : Job m (List UInt8) := do
  Job.require (inputFailure path) (← Job.ask (host.read path))

/-- Prints diagnostics, each with the path of the template. -/
def printDiagnostics (path : String) (diagnostics : List Diagnostic) : Job m Unit :=
  diagnostics.forM fun diagnostic => Job.printError (path ++ ":" ++ diagnostic.render)

/-! ### Settings -/

/-- The text of bytes. -/
def decodeText (bytes : List UInt8) : Except SystemFault String :=
  match Bytes.decode bytes with
  | .ok (text, []) => .ok (String.ofList text)
  | _ => .error (.other "stream did not contain valid UTF-8")

/-- The settings in a file. -/
def loadSettings (host : Host m) (path : String) : Job m Settings := do
  let bytes ← Job.require (.noSettings path) (← Job.ask (host.read path))
  let text ← Job.require (.noSettings path) (decodeText bytes)
  Job.require .settingsFile (Settings.parse path text)

/-- The compiler of options. -/
def compilerOf (options : Options) : Job m Compiler :=
  Job.require .setting (Compiler.ofOptions options)

/-! ### Compiling -/

/-- Commands in a form. -/
def OutputFormat.write (commands : List Command) : OutputFormat → String
  | .json => (Command.jsonOfList commands).indented ++ "\n"
  | .debug => (Command.outlineOfList commands).render ++ "\n"
  | .text => (Listing.ofCommands commands).text

/-- The time between two readings of a clock, or a question mark if there is no clock. -/
def elapsed : Option Nat → Option Nat → String
  | some start, some finish => toString (finish - start)
  | _, _ => "?"

/-- Prints numbers about a compilation. -/
def printStats (size : Nat) (compilation : Compilation) (time : String) : Job m Unit := do
  Job.printError "\n📊 Compilation Statistics:"
  Job.printError ("   Source size: " ++ toString size ++ " bytes")
  Job.printError ("   Elements: " ++ toString compilation.elements)
  Job.printError ("   Expressions: " ++ toString compilation.expressions)
  Job.printError ("   Commands: " ++ toString compilation.commands.length)
  Job.printError ("   Diagnostics: " ++ toString compilation.diagnostics.length)
  Job.printError ("   Compile time: " ++ time ++ "ms")

/-- The size of a file, zero if it cannot be read. -/
def sizeOf (host : Host m) (path : String) : Job m Nat := do
  match ← Job.ask (host.read path) with
  | .ok bytes => return bytes.length
  | .error _ => return 0

/-- Compiles a template. The output file is made before anything else and stays if a later step
fails. -/
def runCompile (host : Host m) (options : Options) (task : CompileTask) : Job m Bool := do
  match task.output? with
  | some path => Job.require .system (← Job.ask (host.create path))
  | none => pure ()
  let compiler ← compilerOf (task.apply options)
  let bytes ← readInput host task.input
  let start ← Job.ask host.now
  let compilation ← Job.require id (compiler.compile bytes)
  let finish ← Job.ask host.now
  let written := task.format.write compilation.commands
  match task.output? with
  | some path => Job.require .system (← Job.ask (host.write path written))
  | none => Job.print written
  let size ← sizeOf host task.input
  printDiagnostics task.input compilation.diagnostics
  if task.stats then printStats size compilation (elapsed start finish)
  return !compilation.hasErrors

/-! ### Checking -/

/-- Checks a file: whether it compiles without errors. -/
def checkFile (host : Host m) (compiler : Compiler) (path : String) : Job m Bool := do
  match ← Job.ask (host.read path) with
  | .error .isDirectory =>
    Job.print ("❌ " ++ path ++ " - " ++ (Failure.system .isDirectory).message ++ "\n")
    return false
  | .error fault => throw (.noInput path fault)
  | .ok bytes =>
    match compiler.compile bytes with
    | .error failure =>
      Job.print ("❌ " ++ path ++ " - " ++ failure.message ++ "\n")
      return false
    | .ok compilation =>
      printDiagnostics path compilation.diagnostics
      if compilation.hasErrors then
        Job.print ("❌ " ++ path ++ "\n")
        return false
      else
        Job.print ("✅ " ++ path ++ " - No issues found\n")
        return true

/-- The characters after the last dot of a file's name, unless that is its first character. -/
def extension? (path : String) : Option String :=
  let name := ((pathParts path).getLast?.getD "").toList
  let extension := (name.reverse.takeWhile (· ≠ '.')).reverse
  if extension.length + 1 < name.length then some (String.ofList extension) else none

/-- Whether a file is a template by its name. -/
def isTemplate (path : String) : Bool :=
  match extension? path with
  | some extension => ["html", "htm"].any (Text.eqIgnoringAsciiCase · extension)
  | none => false

/-- Checks files and counts those with errors. -/
def checkFiles (host : Host m) (compiler : Compiler) : List String → Job m Nat
  | [] => return 0
  | path :: rest => do
    let clean ← checkFile host compiler path
    let others ← checkFiles host compiler rest
    return (if clean then 0 else 1) + others

/-- Checks a file or the templates below a directory. -/
def runCheck (host : Host m) (options : Options) (input : String) (recursive : Bool) :
    Job m Bool := do
  let compiler ← compilerOf options
  let isDirectory ← Job.ask (host.isDirectory input)
  if recursive && isDirectory then
    let paths := (← Job.ask (host.filesBelow input)).filter isTemplate
    let wrong ← checkFiles host compiler paths
    Job.print "\n📊 Check Summary:\n"
    Job.print ("   Total files: " ++ toString paths.length ++ "\n")
    Job.print ("   Files with errors: " ++ toString wrong ++ "\n")
    return wrong = 0
  else checkFile host compiler input

/-! ### Showing trees -/

/-- Prints the tree of a template. -/
def runParse (host : Host m) (options : Options) (input : String) (outline : Bool) :
    Job m Bool := do
  let compiler ← compilerOf options
  let bytes ← readInput host input
  let template ← Job.require id (Markup.Template.parse compiler.options.bufferSize bytes)
  Job.print ((if outline then template.outline.render else template.json.indented) ++ "\n")
  return true

/-! ### The tool -/

/-- Does what is asked for. -/
def runRequest (host : Host m) (request : Request) : Job m Bool := do
  let settings ← match request.settings? with
    | some path => loadSettings host path
    | none => pure .empty
  let options := settings.apply .default
  match request.task? with
  | some (.compile task) => runCompile host options task
  | some (.check input recursive) => runCheck host options input recursive
  | some (.parse input outline) => runParse host options input outline
  | none =>
    Job.print "No subcommand specified. Use --help for usage information.\n"
    return true

/-- The text about the arguments. -/
def usage : String :=
  toolDescription ++ "\n\n"
    ++ "Usage: " ++ toolName ++ " [OPTIONS] [COMMAND]\n\n"
    ++ "Commands:\n"
    ++ "  compile  Compile a template into its command stream\n"
    ++ "  check    Check templates for errors without writing output\n"
    ++ "  parse    Print the node tree of a template\n\n"
    ++ "Options:\n"
    ++ "  -c, --config <FILE>  Configuration file path (.json or .toml)\n"
    ++ "  -v, --verbose        Increase verbosity (can be used multiple times)\n"
    ++ "  -h, --help           Print help\n"
    ++ "  -V, --version        Print version\n"

/-- The tool on arguments: exit code 2 if they are refused, 1 after a failure or errors. -/
def run (host : Host m) (arguments : List String) : m Outcome := do
  match Request.ofArguments arguments with
  | .error (.refused fault) => return ⟨2, "", ["error: " ++ fault.message]⟩
  | .error .help => return ⟨0, usage, []⟩
  | .error .version => return ⟨0, toolName ++ " " ++ toolVersion ++ "\n", []⟩
  | .ok request =>
    let (result, console) ← (runRequest host request).run.run ⟨"", []⟩
    match result with
    | .ok true => return ⟨0, console⟩
    | .ok false => return ⟨1, console⟩
    | .error failure =>
      let lines := ("Compilation failed: " ++ failure.message).splitOn "\n"
      return ⟨1, { console with stderr := console.stderr ++ lines }⟩

end Stencil.Tool
