import Stencil.Compiler
import Stencil.Json.Reader
import Stencil.Tool.Arguments
import Stencil.Toml.Reader

/-!
# Settings

Settings come from a file in JSON or TOML, and from switches, which count more. What neither sets
stays as it is.

## Main definitions

* `Settings`: what a file sets
* `Settings.parse`: the settings in the text of a file
* `Settings.apply`, `CompileTask.apply`: options under settings and switches
-/

namespace Stencil.Tool

/-- What a file sets. -/
structure Settings where
  bufferSize? : Option Nat
  globals? : Option (List String)
  shadowPolicy? : Option ShadowPolicy
  strict? : Option Bool
  disabledFilters? : Option (List String)
  deriving DecidableEq, Repr

namespace Settings

/-- Nothing is set. -/
def empty : Settings := ⟨none, none, none, none, none⟩

/-- The options under settings. -/
def apply (settings : Settings) (options : Options) : Options where
  bufferSize := settings.bufferSize?.getD options.bufferSize
  globals := settings.globals?.getD options.globals
  shadowPolicy := settings.shadowPolicy?.getD options.shadowPolicy
  strict := settings.strict?.getD options.strict
  disabledFilters := settings.disabledFilters?.getD options.disabledFilters

/-! ### Values -/

/-- A value that may be null, which sets nothing. -/
def nullable {α : Type} (decode : Json → Option α) : Json → Option (Option α)
  | .null => some none
  | value => (decode value).map some

/-- A number that is not negative. -/
def nat? : Json → Option Nat
  | .integer value => if 0 ≤ value then some value.toNat else none
  | _ => none

/-- A truth value. -/
def bool? : Json → Option Bool
  | .bool value => some value
  | _ => none

/-- A list of texts. -/
def texts? : Json → Option (List String)
  | .array items => items.mapM fun
    | .text value => some value
    | _ => none
  | _ => none

/-- A policy by its name, or by its name with an empty value, of which `isEmpty` tells. -/
def policyValue? (isEmpty : Json → Bool) : Json → Option ShadowPolicy
  | .text name => policy? name
  | .object [(name, value)] => if isEmpty value then policy? name else none
  | _ => none

/-! ### Files -/

/-- Settings with one more value. -/
def set? (isEmpty : Json → Bool) (settings : Settings) (name : String) (value : Json) :
    Option Settings :=
  match name with
  | "buffer_size" =>
    (nullable nat? value).map fun bufferSize? => { settings with bufferSize? }
  | "globals" => (nullable texts? value).map fun globals? => { settings with globals? }
  | "shadow_policy" =>
    (nullable (policyValue? isEmpty) value).map fun shadowPolicy? =>
      { settings with shadowPolicy? }
  | "strict_identifiers" => (nullable bool? value).map fun strict? => { settings with strict? }
  | "disabled_filters" =>
    (nullable texts? value).map fun disabledFilters? => { settings with disabledFilters? }
  | _ => none

/-- The names of settings, in the order in which a list gives their values. -/
def names : List String :=
  ["buffer_size", "globals", "shadow_policy", "strict_identifiers", "disabled_filters"]

/-- The settings of named values. Each name is one of a setting and stands once. -/
def ofFields? (isEmpty : Json → Bool) (fields : List (String × Json)) : Option Settings :=
  if (fields.map (·.1)).Nodup then
    fields.foldlM (fun settings (name, value) => settings.set? isEmpty name value) empty
  else none

/-- The settings of a JSON value: an object, or a list of all values. -/
def ofJson? : Json → Option Settings
  | .object fields => ofFields? isNull fields
  | .array values => if values.length = names.length then ofFields? isNull (names.zip values) else none
  | _ => none
where
  /-- An empty value is null. -/
  isNull : Json → Bool
    | .null => true
    | _ => false

/-- The settings of a TOML document. -/
def ofToml? (document : Toml) : Option Settings :=
  match document.json with
  | .object fields => ofFields? isEmpty fields
  | _ => none
where
  /-- An empty value is a table or an array without entries. -/
  isEmpty : Json → Bool
    | .object [] => true
    | .array [] => true
    | _ => false

/-- The settings in the text of a file, whose name tells the format. -/
def parse (path text : String) : Except SettingsFileFault Settings :=
  if path.endsWith ".json" then
    match (Json.parse? text).bind ofJson? with
    | some settings => .ok settings
    | none => .error .badJson
  else if path.endsWith ".toml" then
    match (Toml.parse? text).bind ofToml? with
    | some settings => .ok settings
    | none => .error .badToml
  else .error .otherFormat

end Settings

/-- Globals with more of them; one that differs from another by the case of ASCII letters only is
left out. -/
def addGlobals (globals more : List String) : List String :=
  more.foldl (fun globals name =>
    if globals.any (Text.eqIgnoringAsciiCase · name) then globals else globals ++ [name]) globals

/-- The options under switches. -/
def CompileTask.apply (task : CompileTask) (options : Options) : Options where
  bufferSize := task.bufferSize?.getD options.bufferSize
  globals := addGlobals options.globals task.globals
  shadowPolicy := task.shadowPolicy?.getD options.shadowPolicy
  strict := task.strict || options.strict
  disabledFilters := options.disabledFilters ++ task.disabledFilters

end Stencil.Tool
