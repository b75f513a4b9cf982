/-!
# TOML documents

A TOML document is a table of named values.  Tables are written in several ways,
and each way has its own rule for what may still be added, so a table remembers
its `Origin`.

* `Toml.defineTable` and `Toml.appendTable` add the tables of the headers `[a.b]`
  and `[[a.b]]`;
* `Toml.define` adds the value of a key.

All of them fail where a name would be defined twice.
-/

namespace TableNotation

namespace Toml

/-- How a table came to be. -/
inductive Origin where
  /-- By a header of its own, or as the whole document. -/
  | header
  /-- As a part of the name in the header of another table. -/
  | implied
  /-- As a part of a dotted key. -/
  | dotted
  /-- As a value in braces, to which nothing can be added. -/
  | closed
  deriving DecidableEq

end Toml

/-- A value of a TOML document. -/
inductive Toml where
  | string (text : String)
  | integer (value : Int)
  | boolean (value : Bool)
  | float
  /-- A date, a time, or both. -/
  | moment
  | array (items : List Toml)
  | table (origin : Toml.Origin) (entries : List (String × Toml))
  /-- The tables of one header in double brackets, the last one first. -/
  | tables (elements : List (List (String × Toml)))

namespace Toml

/-- The entries of a table, in no particular order. -/
abbrev Entries := List (String × Toml)

/-- The entries with `key` set to `value`. -/
def set (key : String) (value : Toml) (entries : Entries) : Entries :=
  (key, value) :: entries.filter fun e => e.1 != key

/-- Changes the table at the end of a path, making the tables on the way that are
missing.  A dotted key does not go through tables with headers. -/
def alter (dotted : Bool) (change : Origin → Entries → Option Entries) :
    (path : List String) → Origin → Entries → Option Entries
  | [], origin, entries => change origin entries
  | key :: path, _, entries =>
    match entries.lookup key with
    | none => do
      let origin := if dotted then .dotted else .implied
      let inner ← alter dotted change path origin []
      return set key (.table origin inner) entries
    | some (.table origin inner) =>
      if origin = .closed || dotted && origin = .header then none
      else do
        let inner ← alter dotted change path origin inner
        return set key (.table origin inner) entries
    | some (.tables (last :: before)) => do
      let last ← alter dotted change path .header last
      return set key (.tables (last :: before)) entries
    | some _ => none

/-- Adds the table of a header with single brackets. -/
def defineTable (path : List String) (key : String) (entries : Entries) : Option Entries :=
  alter false (fun _ entries =>
    match entries.lookup key with
    | none => some (set key (.table .header []) entries)
    | some (.table .implied inner) => some (set key (.table .header inner) entries)
    | some _ => none) path .header entries

/-- Adds a table of a header with double brackets. -/
def appendTable (path : List String) (key : String) (entries : Entries) : Option Entries :=
  alter false (fun _ entries =>
    match entries.lookup key with
    | none => some (set key (.tables [[]]) entries)
    | some (.tables elements) => some (set key (.tables ([] :: elements)) entries)
    | some _ => none) path .header entries

/-- Adds a value under a dotted key to a table.  Only a dotted key adds to a table
that a dotted key made. -/
def define (path : List String) (key : String) (value : Toml) (origin : Origin)
    (entries : Entries) : Option Entries :=
  alter true (fun origin entries =>
    if (origin = .dotted) = (path = []) then none
    else match entries.lookup key with
      | none => some (set key value entries)
      | some _ => none) path origin entries

/-- Adds a value under a dotted key to the table at the end of a path. -/
def defineIn (table : List String) (path : List String) (key : String) (value : Toml)
    (entries : Entries) : Option Entries :=
  alter false (define path key value) table .header entries

end Toml
end TableNotation
