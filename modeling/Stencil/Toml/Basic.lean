import Stencil.Json.Basic

/-!
# TOML values

The values of a TOML document as far as settings need them: texts, integers, truth values, arrays and
tables. How a table came about decides whether it can be added to.

## Main definitions

* `Toml`: a value
* `Toml.update?`: a table with a change some way down
* `Toml.json`: the value as JSON
-/

namespace Stencil

namespace Toml

/-- How a table came about. -/
inductive Origin where
  /-- Written between braces. -/
  | inline
  /-- By a header of its own. -/
  | header
  /-- By a header of a table below it. -/
  | implied
  /-- By a dotted key. -/
  | dotted
  deriving DecidableEq, Repr

end Toml

/-- A TOML value. -/
inductive Toml where
  | text (value : String)
  | integer (value : Int)
  | bool (value : Bool)
  | array (items : List Toml)
  | table (origin : Toml.Origin) (entries : List (String × Toml))
  deriving Repr, Inhabited

namespace Toml

/-- The entries with another value under a name that is there. -/
def replace (name : String) (value : Toml) (entries : List (String × Toml)) :
    List (String × Toml) :=
  entries.map fun entry => if entry.1 = name then (name, value) else entry

/-- The entries of a table with a change at the end of a path. Tables that are missing are made with
the origin `fresh`; a table of an origin in `closed` cannot be entered. -/
def update? (fresh : Origin) (closed : List Origin)
    (change : Origin → List (String × Toml) → Option (List (String × Toml))) :
    List String → Origin → List (String × Toml) → Option (List (String × Toml))
  | [], origin, entries => change origin entries
  | key :: path, _, entries =>
    match entries.lookup key with
    | none =>
      (update? fresh closed change path fresh []).map fun below =>
        entries ++ [(key, .table fresh below)]
    | some (.table origin below) =>
      if closed.contains origin then none
      else (update? fresh closed change path origin below).map fun below =>
        replace key (.table origin below) entries
    | some _ => none

/-- The entries with a value under a name that is not there. -/
def insertNew (name : String) (value : Toml) (entries : List (String × Toml)) :
    Option (List (String × Toml)) :=
  if (entries.lookup name).isSome then none else some (entries ++ [(name, value)])

/-- The entries of a table with a value under a dotted key. A dotted key does not add to tables that
headers have made. -/
def assign? (path : List String) (name : String) (value : Toml) (origin : Origin)
    (entries : List (String × Toml)) : Option (List (String × Toml)) :=
  update? .dotted [.inline, .header]
    (fun last entries =>
      if path.isEmpty || last = .dotted then insertNew name value entries else none)
    path origin entries

/-- The entries after a header. A table has one header only, which may come after that of a table
below it. -/
def declare? (path : List String) (name : String) (entries : List (String × Toml)) :
    Option (List (String × Toml)) :=
  update? .implied [.inline]
    (fun _ entries =>
      match entries.lookup name with
      | none => some (entries ++ [(name, .table .header [])])
      | some (.table .implied below) => some (replace name (.table .header below) entries)
      | some _ => none)
    path .header entries

mutual

/-- A value as JSON. -/
def json : Toml → Json
  | .text value => .text value
  | .integer value => .integer value
  | .bool value => .bool value
  | .array items => .array (jsonOfItems items)
  | .table _ entries => .object (jsonOfEntries entries)

/-- Values as JSON. -/
def jsonOfItems : List Toml → List Json
  | [] => []
  | item :: rest => json item :: jsonOfItems rest

/-- Entries as JSON. -/
def jsonOfEntries : List (String × Toml) → List (String × Json)
  | [] => []
  | (name, value) :: rest => (name, json value) :: jsonOfEntries rest

end

end Toml

end Stencil
