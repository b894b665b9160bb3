/-!
# Lists that are kept in order

Values under names, in increasing order of the names, each name once; the order of names is that of
their code points. And items in increasing order of a key, where items with the same key stand in
the order in which they came.

## Main definitions

* `Entries`: values under names
* `Priority.sort`: items in order of priority
-/

namespace Stencil

/-- Values under names. -/
abbrev Entries (α : Type) := List (String × α)

namespace Entries

variable {α : Type}

/-- Puts `value` under `name`, in place of what was there. -/
def insert (name : String) (value : α) : Entries α → Entries α
  | [] => [(name, value)]
  | (other, kept) :: rest =>
    if name < other then (name, value) :: (other, kept) :: rest
    else if name = other then (name, value) :: rest
    else (other, kept) :: insert name value rest

/-- The entries of a list; of several under one name, the last. -/
def ofList (entries : List (String × α)) : Entries α :=
  entries.foldl (fun sorted (name, value) => sorted.insert name value) []

/-- The value under `name`. -/
def find? (entries : Entries α) (name : String) : Option α :=
  entries.lookup name

/-- Whether there is a value under `name`. -/
def contains (entries : Entries α) (name : String) : Bool :=
  (entries.find? name).isSome

/-- The entries under names other than `names`. -/
def without (entries : Entries α) (names : List String) : Entries α :=
  entries.filter fun entry => !names.contains entry.1

/-- The names, in increasing order. -/
def names (entries : Entries α) : List String :=
  entries.map (·.1)

end Entries

namespace Priority

variable {α : Type}

/-- The items with `item` before the first of a greater key. -/
def insert (key : α → Int) (item : α) : List α → List α
  | [] => [item]
  | first :: rest =>
    if key item < key first then item :: first :: rest else first :: insert key item rest

/-- The items in increasing order of the key. -/
def sort (key : α → Int) (items : List α) : List α :=
  items.foldl (fun sorted item => insert key item sorted) []

end Priority

end Stencil
