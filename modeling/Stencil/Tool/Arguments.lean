import Stencil.Command.Watcher

/-!
# Arguments of the command line

The arguments are switches and a command with switches and an input of its own. A switch is written
with two dashes and its name, its value after an equals sign or as the next argument, or with one
dash and a letter, where letters can be joined and a value can follow the last of them. Two dashes
alone end the switches.

## Main definitions

* `Request`: what the arguments ask for
* `Request.ofArguments`: the request of arguments
-/

namespace Stencil.Tool

/-- Where an argument stands: before the command, or after one. -/
inductive Level where
  | top
  | compile
  | check
  | parse
  deriving DecidableEq, Repr

/-- What can be switched. -/
inductive Switch where
  | settings
  | verbose
  | help
  | version
  | output
  | format
  | bufferSize
  | global
  | shadow
  | strict
  | disableFilter
  | stats
  | recursive
  deriving DecidableEq, Repr

/-- What is wrong with arguments. -/
inductive ArgumentFault where
  | unknownCommand (name : String)
  | unknownSwitch (name : String)
  | unexpected (argument : String)
  | missingValue (switch : String)
  | unwantedValue (switch : String)
  | repeated (switch : String)
  | badValue (switch value : String)
  | missingInput
  deriving DecidableEq, Repr

/-- The message of a fault. -/
def ArgumentFault.message : ArgumentFault → String
  | .unknownCommand name => "unrecognized subcommand '" ++ name ++ "'"
  | .unknownSwitch name => "unexpected argument '" ++ name ++ "' found"
  | .unexpected argument => "unexpected argument '" ++ argument ++ "' found"
  | .missingValue switch => "a value is required for '" ++ switch ++ "' but none was supplied"
  | .unwantedValue switch => "unexpected value for '" ++ switch ++ "' found"
  | .repeated switch => "the argument '" ++ switch ++ "' cannot be used multiple times"
  | .badValue switch value => "invalid value '" ++ value ++ "' for '" ++ switch ++ "'"
  | .missingInput => "the following required arguments were not provided: <input>"

/-- Why the reading of arguments stops: it is refused, or it asks for a text about the tool. -/
inductive Stop where
  | refused (fault : ArgumentFault)
  | help
  | version
  deriving DecidableEq, Repr

namespace Switch

/-- The name after two dashes. -/
def name : Switch → String
  | .settings => "config"
  | .verbose => "verbose"
  | .help => "help"
  | .version => "version"
  | .output => "output"
  | .format => "format"
  | .bufferSize => "buffer-size"
  | .global => "global"
  | .shadow => "shadow"
  | .strict => "strict"
  | .disableFilter => "disable-filter"
  | .stats => "stats"
  | .recursive => "recursive"

/-- The letter after one dash. -/
def letter? : Switch → Option Char
  | .settings => some 'c'
  | .verbose => some 'v'
  | .help => some 'h'
  | .version => some 'V'
  | .output => some 'o'
  | .format => some 'f'
  | .global => some 'g'
  | .recursive => some 'r'
  | _ => none

/-- How the switch is shown in messages. -/
def shown (switch : Switch) : String :=
  "--" ++ switch.name

/-- Whether the switch has a value. -/
def takesValue : Switch → Bool
  | .settings | .output | .format | .bufferSize | .global | .shadow | .disableFilter => true
  | _ => false

/-- Whether the switch can be given again. -/
def isRepeatable : Switch → Bool
  | .verbose | .global | .disableFilter => true
  | _ => false

end Switch

/-- A number of bytes: at least one, and of sixty-four bits. -/
def bufferSize? (value : String) : Option Nat :=
  let digits := match value.toList with
    | '+' :: digits => digits
    | digits => digits
  let number := decimalValue digits
  if !digits.isEmpty && digits.all Char.isDigit && 1 ≤ number && number < Nat.pow 2 64 then
    some number
  else none

/-- The policy of a name. -/
def policy? : String → Option ShadowPolicy
  | "ignore" => some .ignore
  | "warn" => some .warn
  | "error" => some .error
  | _ => none

namespace Level

/-- The command of a name. -/
def ofCommand? : String → Option Level
  | "compile" => some .compile
  | "check" => some .check
  | "parse" => some .parse
  | _ => none

/-- The switches there are. -/
def switches : Level → List Switch
  | .top => [.settings, .verbose, .help, .version]
  | .compile =>
    [.settings, .verbose, .help, .output, .format, .bufferSize, .global, .shadow, .strict,
      .disableFilter, .stats]
  | .check => [.settings, .verbose, .help, .recursive]
  | .parse => [.settings, .verbose, .help, .format]

/-- Whether a value is right for a switch. -/
def accepts (level : Level) (switch : Switch) (value : String) : Bool :=
  match switch with
  | .format =>
    if level = .parse then ["json", "debug"].contains value
    else ["json", "debug", "text"].contains value
  | .bufferSize => (bufferSize? value).isSome
  | .shadow => (policy? value).isSome
  | _ => true

/-- The switch of a name. -/
def named? (level : Level) (name : String) : Option Switch :=
  level.switches.find? fun switch => switch.name = name

/-- The switch of a letter. -/
def lettered? (level : Level) (letter : Char) : Option Switch :=
  level.switches.find? fun switch => switch.letter? = some letter

end Level

/-- The arguments given at one level. -/
structure Given where
  /-- The switches with their values, in order. -/
  switches : List (Switch × String)
  input? : Option String
  deriving DecidableEq, Repr

namespace Given

/-- No arguments. -/
def none : Given := ⟨[], .none⟩

/-- Whether a switch is given. -/
def has (given : Given) (switch : Switch) : Bool :=
  given.switches.any fun (other, _) => other = switch

/-- The values of a switch. -/
def values (given : Given) (switch : Switch) : List String :=
  (given.switches.filter fun (other, _) => other = switch).map (·.2)

/-- The value of a switch that is given at most once. -/
def value? (given : Given) (switch : Switch) : Option String :=
  (given.values switch).head?

/-- The arguments with one more switch. -/
def addSwitch (given : Given) (level : Level) (switch : Switch) (value : String) :
    Except Stop Given :=
  match switch with
  | .help => .error .help
  | .version => .error .version
  | _ =>
    if given.has switch && !switch.isRepeatable then .error (.refused (.repeated switch.shown))
    else if !level.accepts switch value then .error (.refused (.badValue switch.shown value))
    else .ok { given with switches := given.switches ++ [(switch, value)] }

/-- The arguments with an input. Before the command there is none, and after it there is one. -/
def addInput (given : Given) (level : Level) (argument : String) : Except Stop Given :=
  if level = .top then .error (.refused (.unknownCommand argument))
  else if given.input?.isSome then .error (.refused (.unexpected argument))
  else .ok { given with input? := some argument }

/-- The arguments with switches by letters, and the switch that waits for its value. -/
def addLetters (given : Given) (level : Level) : List Char → Except Stop (Given × Option Switch)
  | [] => .ok (given, .none)
  | letter :: rest =>
    match level.lettered? letter with
    | .none => .error (.refused (.unknownSwitch ("-" ++ String.singleton letter)))
    | some switch =>
      if switch.takesValue then
        match rest with
        | [] => .ok (given, some switch)
        | '=' :: value =>
          (given.addSwitch level switch (String.ofList value)).map (·, .none)
        | value => (given.addSwitch level switch (String.ofList value)).map (·, .none)
      else
        match given.addSwitch level switch "" with
        | .ok given => given.addLetters level rest
        | .error stop => .error stop

/-- The arguments with a switch by name, which may have its value after an equals sign, and the
switch that waits for its value. -/
def addNamed (given : Given) (level : Level) (written : List Char) :
    Except Stop (Given × Option Switch) :=
  let name := String.ofList (written.takeWhile (· ≠ '='))
  let attached := written.dropWhile (· ≠ '=')
  match level.named? name with
  | .none => .error (.refused (.unknownSwitch ("--" ++ name)))
  | some switch =>
    match switch.takesValue, attached with
    | true, [] => .ok (given, some switch)
    | true, _ :: value => (given.addSwitch level switch (String.ofList value)).map (·, .none)
    | false, [] => (given.addSwitch level switch "").map (·, .none)
    | false, _ :: _ => .error (.refused (.unwantedValue switch.shown))

/-- The arguments with inputs only. -/
def addInputs (given : Given) (level : Level) (arguments : List String) : Except Stop Given :=
  arguments.foldlM (fun given argument => given.addInput level argument) given

/-- Whether an argument is that of switches: a dash with something after it. -/
def isSwitch (argument : String) : Bool :=
  match argument.toList with
  | '-' :: _ :: _ => true
  | _ => false

/-- What follows the command `help`: nothing, or one command that there is. -/
def afterHelp : List String → Stop
  | [] => .help
  | [name] =>
    if name = "help" || (Level.ofCommand? name).isSome then .help
    else .refused (.unknownCommand name)
  | name :: other :: _ =>
    .refused (.unknownCommand (if (Level.ofCommand? name).isSome then other else name))

/-- Reads arguments up to a command. `waiting` is the switch whose value comes next. -/
def read (level : Level) (given : Given) (waiting : Option Switch) :
    List String → Except Stop (Given × Option (Level × List String))
  | [] =>
    match waiting with
    | some switch => .error (.refused (.missingValue switch.shown))
    | .none => .ok (given, .none)
  | argument :: rest =>
    match waiting with
    | some switch =>
      if isSwitch argument then .error (.refused (.missingValue switch.shown))
      else do
        let given ← given.addSwitch level switch argument
        read level given .none rest
    | .none =>
      match if level = .top then Level.ofCommand? argument else .none with
      | some command => .ok (given, some (command, rest))
      | .none =>
        if level = .top && argument = "help" then .error (afterHelp rest)
        else match argument.toList with
        | ['-', '-'] => (given.addInputs level rest).map (·, .none)
        | '-' :: '-' :: written => do
          let (given, waiting) ← given.addNamed level written
          read level given waiting rest
        | '-' :: letter :: letters => do
          let (given, waiting) ← given.addLetters level (letter :: letters)
          read level given waiting rest
        | _ => do
          let given ← given.addInput level argument
          read level given .none rest

end Given

/-- The form in which commands are written. -/
inductive OutputFormat where
  | json
  | debug
  | text
  deriving DecidableEq, Repr

/-- The form of a name. -/
def OutputFormat.ofName : String → OutputFormat
  | "json" => .json
  | "debug" => .debug
  | _ => .text

/-- The compilation of a file. -/
structure CompileTask where
  input : String
  output? : Option String
  format : OutputFormat
  bufferSize? : Option Nat
  globals : List String
  shadowPolicy? : Option ShadowPolicy
  strict : Bool
  disabledFilters : List String
  stats : Bool
  deriving DecidableEq, Repr

/-- What a command does. -/
inductive Task where
  | compile (task : CompileTask)
  /-- Checks a file, or all those below a directory. -/
  | check (input : String) (recursive : Bool)
  /-- Shows the tree of a template, as JSON or as an outline. -/
  | parse (input : String) (outline : Bool)
  deriving DecidableEq, Repr

/-- What arguments ask for: a task, under settings from a file. -/
structure Request where
  settings? : Option String
  task? : Option Task
  deriving DecidableEq, Repr

namespace Request

/-- The task of a command with an input. -/
def taskOf (level : Level) (given : Given) (input : String) : Option Task :=
  match level with
  | .top => none
  | .compile =>
    some (.compile
      { input
        output? := given.value? .output
        format := .ofName ((given.value? .format).getD "text")
        bufferSize? := (given.value? .bufferSize).bind Tool.bufferSize?
        globals := given.values .global
        shadowPolicy? := (given.value? .shadow).bind policy?
        strict := given.has .strict
        disabledFilters := given.values .disableFilter
        stats := given.has .stats })
  | .check => some (.check input (given.has .recursive))
  | .parse => some (.parse input (given.value? .format = some "debug"))

/-- The request of arguments. Settings can be named before and after the command; the latter
count. -/
def ofArguments (arguments : List String) : Except Stop Request := do
  let (top, command?) ← Given.read .top .none none arguments
  match command? with
  | none => return ⟨top.value? .settings, none⟩
  | some (level, rest) =>
    let (given, _) ← Given.read level .none none rest
    match given.input? with
    | none => throw (.refused .missingInput)
    | some input =>
      return ⟨(given.value? .settings).or (top.value? .settings), taskOf level given input⟩

end Request

end Stencil.Tool
