import TableNotation.SortedMap
import TableNotation.Value.Order
/-!
# The layout of a table

A table is written with a schema, the names and kinds of its columns, and with
defaults, the values that need not be written.

* The schema is that of the first record (`Schema.ofRecord`).
* A default is the value of more than three fifths of the first hundred records
  that have the field (`majority?`); a field with a list or an object among those
  values has no default (`Defaults.infer`).
-/

namespace TableNotation

/-- The columns of a table: names and kinds, in order. -/
abbrev Schema := List (String × Kind)

/-- The values of fields that need not be written. -/
abbrev Defaults := SortedMap Value

namespace Value

/-- Whether two scalars are one and the same: of one kind and with one content,
the two zeros of a double being two. -/
def identical : Value → Value → Bool
  | .null, .null => true
  | .bool a, .bool b => a == b
  | .number a, .number b => a = b
  | .string a, .string b => a == b
  | _, _ => false

end Value

/-- The columns of a record. -/
def Schema.ofRecord (record : Record) : Schema := record.map fun field => (field.1, field.2.kind)

namespace Defaults

/-- The number of records that are looked at. -/
def sampleSize : Nat := 100

/-- How often a scalar is among values. -/
def occurrences (v : Value) (values : List Value) : Nat := values.countP v.identical

/-- The scalar that is more than three fifths of values which are all scalars. -/
def majority? (values : List Value) : Option Value :=
  if values.all Value.isScalar then
    values.find? fun v => 3 * values.length < 5 * occurrences v values
  else none

/-- The defaults of records, from the first hundred of them. -/
def infer (records : List Record) : Defaults :=
  let sample := records.take sampleSize
  let names := (sample.flatMap Fields.keys).eraseDups
  SortedMap.ofList (names.filterMap fun name =>
    (majority? (sample.filterMap (Fields.get? name))).map fun v => (name, v))

end Defaults

/-- The columns and the defaults of a table. -/
structure Layout where
  schema : Schema
  defaults : Defaults

namespace Layout

/-- The layout of a table without columns. -/
def empty : Layout := ⟨[], .empty⟩

/-- The layout of records; without `optimize` there are no defaults. -/
def infer (optimize : Bool) (records : List Record) : Layout :=
  match records with
  | [] => empty
  | first :: _ =>
    ⟨Schema.ofRecord first, if optimize then Defaults.infer records else .empty⟩

/-- Whether a value need not be written in a column. -/
def isDefault (layout : Layout) (field : String) (value : Value) : Bool :=
  match layout.defaults.get? field with
  | some default => default.same value
  | none => false

end Layout
end TableNotation
