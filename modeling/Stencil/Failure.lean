import Stencil.Expression.Fault
import Stencil.Markup.Fault

/-!
# Failures

Everything that can end a compilation, with its message. Problems that do not end it are
diagnostics.
-/

namespace Stencil

/-- What the system answers when a file cannot be used. -/
inductive SystemFault where
  | noEntry
  | notDirectory
  | isDirectory
  /-- Anything else, with the message of the system. -/
  | other (message : String)
  deriving DecidableEq, Repr

/-- The message of the system. -/
def SystemFault.message : SystemFault → String
  | .noEntry => "No such file or directory (os error 2)"
  | .notDirectory => "Not a directory (os error 20)"
  | .isDirectory => "Is a directory (os error 21)"
  | .other message => message

/-- What can be wrong with the bytes of a text. -/
inductive EncodingFault where
  /-- Bytes that no further bytes can complete: how many, and how many stand before them. -/
  | invalid (length index : Nat)
  /-- The last character is not complete. -/
  | truncated
  deriving DecidableEq, Repr

/-- The message of a fault. -/
def EncodingFault.message : EncodingFault → String
  | .invalid length index =>
    "Invalid UTF-8 in input: invalid utf-8 sequence of " ++ toString length ++ " bytes from index "
      ++ toString index
  | .truncated => "Input ends inside a UTF-8 sequence"

/-- What can be wrong with the call of a function at run time. -/
inductive CallFault where
  | arity (expected given : Nat)
  | unknown
  | refused (message : String)
  deriving DecidableEq, Repr

/-- The message of a fault. -/
def CallFault.message : CallFault → String
  | .arity expected given =>
    "expected " ++ toString expected ++ " argument" ++ (if expected = 1 then "" else "s") ++ ", got "
      ++ toString given
  | .unknown => "no such runtime extension"
  | .refused message => message

/-- What can be wrong with the settings of a compiler. -/
inductive SettingFault where
  | badGlobal (name : String)
  | unknownFilter (name : String)
  | optionTaken (option filter : String)
  deriving DecidableEq, Repr

/-- The message of a fault. -/
def SettingFault.message : SettingFault → String
  | .badGlobal name => "Global binding name '" ++ name ++ "' is not a valid identifier"
  | .unknownFilter name => "Cannot disable unknown filter '" ++ name ++ "'"
  | .optionTaken option filter =>
    "Option '" ++ option ++ "' is already consumed by another filter, cannot register '" ++ filter
      ++ "'"

/-- What can be wrong with a settings file. -/
inductive SettingsFileFault where
  | badJson
  | badToml
  | otherFormat
  deriving DecidableEq, Repr

/-- The message of a fault. -/
def SettingsFileFault.message : SettingsFileFault → String
  | .badJson => "Invalid JSON config: "
  | .badToml => "Invalid TOML config: "
  | .otherFormat => "Config file must be .json or .toml format"

/-- Why a compilation ended. -/
inductive Failure where
  | system (fault : SystemFault)
  | markup (error : MarkupError)
  | expression (error : ExpressionError)
  | scopeUnderflow
  | call (function : String) (fault : CallFault)
  | setting (fault : SettingFault)
  | noInput (path : String) (fault : SystemFault)
  | noSettings (path : String) (fault : SystemFault)
  | encoding (fault : EncodingFault)
  | settingsFile (fault : SettingsFileFault)
  deriving DecidableEq, Repr

namespace Failure

/-- The message of a failure. -/
def message : Failure → String
  | .system fault => "IO error: " ++ fault.message
  | .markup e =>
    "Parse error at line " ++ toString e.location.line ++ ", column " ++ toString e.location.column
      ++ ": " ++ e.fault.message ++ " (near \"" ++ e.excerpt ++ "\")"
  | .expression e =>
    "Expression error at line " ++ toString e.location.line ++ ", column "
      ++ toString e.location.column ++ ": " ++ e.fault.message
  | .scopeUnderflow => "Variable scope underflow: no declaration left to pop"
  | .call function fault => "Runtime error in '" ++ function ++ "': " ++ fault.message
  | .setting fault => "Configuration error: " ++ fault.message
  | .noInput path fault => "File not found: " ++ path ++ ": " ++ fault.message
  | .noSettings path fault => "File not found: Config file " ++ path ++ ": " ++ fault.message
  | .encoding fault => "Invalid format: " ++ fault.message
  | .settingsFile fault => "Invalid format: " ++ fault.message

/-- Where in the source the failure is, if it is there. -/
def location? : Failure → Option Location
  | .markup e => some e.location
  | .expression e => some e.location
  | _ => none

end Failure

end Stencil
