import TableNotation.Literal.Basic
import TableNotation.Table.Layout
/-!
# Rows

A row has one slot for each column, with commas between them.  A slot is left
empty if its value is the default of the column, and empty slots at the end are
left out.  A row whose slots are all empty shows its first value after all, so
that no row is blank; the row of a table without columns is a pair of braces.

* `Row.render` writes a record as a row, and `Row.parse` reads it.
-/

namespace TableNotation.Row

/-- The slot of a column: nothing if the value is the default. -/
def slot? (dictionary : Dictionary) (layout : Layout) (record : Record)
    (column : String × Kind) : Option (List Char) :=
  let value := record.getOrNull column.1
  if layout.isDefault column.1 value then none else some (Literal.render dictionary value)

/-- Slots without the empty ones at the end. -/
def dropTrailing (slots : List (Option (List Char))) : List (Option (List Char)) :=
  (slots.reverse.dropWhile Option.isNone).reverse

/-- The row of a record. -/
def render (dictionary : Dictionary) (layout : Layout) (record : Record) : List Char :=
  match layout.schema with
  | [] => ['\x7b', '\x7d']
  | first :: _ =>
    let slots := dropTrailing (layout.schema.map (slot? dictionary layout record))
    if slots.isEmpty then Literal.render dictionary (record.getOrNull first.1)
    else Literal.commaList (slots.map fun slot => slot.getD [])

/-- Takes the columns and the slots of a row side by side.  An empty slot is the
default, or null; a column without a slot is the default, or left out. -/
def fill (dictionary : Dictionary) (defaults : Defaults) (record : Record) :
    Schema → List (List Char) → Record
  | [], _ => record
  | (name, _) :: columns, [] =>
    let record := match defaults.get? name with
      | some value => record.insert name value
      | none => record
    fill dictionary defaults record columns []
  | (name, _) :: columns, slot :: slots =>
    let value :=
      if slot.isEmpty then (defaults.get? name).getD .null else Literal.parse dictionary slot
    fill dictionary defaults (record.insert name value) columns slots

/-- The record of a row. -/
def parse (dictionary : Dictionary) (layout : Layout) (line : List Char) : Record :=
  fill dictionary layout.defaults [] layout.schema (Literal.slots line)

end TableNotation.Row
