import TableNotation.Settings.Basic
import TableNotation.Toml.Reader
/-!
# Settings in a file

Settings are written in TOML; a key that is missing has its standard value, and
keys that mean nothing are passed over.
-/

namespace TableNotation

namespace Toml

/-- The value of a boolean. -/
def boolean? : Toml → Option Bool
  | .boolean b => some b
  | _ => none

/-- The value of an integer that is not negative. -/
def count? : Toml → Option Nat
  | .integer n => if 0 ≤ n then some n.toNat else none
  | _ => none

/-- The mode of a string. -/
def mode? : Toml → Option Mode
  | .string name => Mode.ofNameIgnoringCase? name
  | _ => none

/-- The value of a key as `read` understands it, or the standard one if the key is
missing. -/
def valueOf? {α : Type} (read : Toml → Option α) (standard : α) (key : String)
    (entries : Entries) : Option α :=
  match entries.lookup key with
  | some value => read value
  | none => some standard

/-- The thresholds of a table, or of a list of numbers in the same order.  A date or
a time counts as a table with neither of the keys. -/
def thresholds? : Toml → Option Thresholds
  | .moment => some .standard
  | .table _ entries => do
    let minLength ← valueOf? count? Thresholds.standard.minLength "min_length" entries
    let minOccurrences ←
      valueOf? count? Thresholds.standard.minOccurrences "min_occurrences" entries
    return ⟨minLength, minOccurrences⟩
  | .array [] => some .standard
  | .array [minLength] => do
    return { Thresholds.standard with minLength := ← count? minLength }
  | .array (minLength :: minOccurrences :: _) => do
    return ⟨← count? minLength, ← count? minOccurrences⟩
  | _ => none

end Toml

namespace Settings

/-- The settings of the entries of a TOML document. -/
def ofEntries? (entries : Toml.Entries) : Option Settings := do
  return {
    optimize := ← Toml.valueOf? Toml.boolean? standard.optimize "optimize" entries
    mode := ← Toml.valueOf? Toml.mode? standard.mode "compression" entries
    queryable := ← Toml.valueOf? Toml.boolean? standard.queryable "queryable" entries
    validate := ← Toml.valueOf? Toml.boolean? standard.validate "validate" entries
    chunkSize := ← Toml.valueOf? Toml.count? standard.chunkSize "chunk_size" entries
    thresholds := ← Toml.valueOf? Toml.thresholds? standard.thresholds "dictionary" entries }

/-- The settings of a TOML text. -/
def parse (text : String) : Except SettingsError Settings :=
  match (Toml.read? text).bind ofEntries? with
  | some settings => .ok settings
  | none => .error .malformed

end Settings
end TableNotation
