import TableNotation.Table.FieldName
import TableNotation.Table.Header
import TableNotation.Table.Layout
/-!
# Directives

Lines that begin with `@` are directives: a name and, in brackets, entries with
commas between them.  The dictionary, the schema and the defaults are written so.
-/

namespace TableNotation.Directive

/-- The beginning of a dictionary line. -/
def dictionaryMark : List Char := ['@', 'd', 'i', 'c', 't']

/-- The beginning of a schema line. -/
def schemaMark : List Char := ['@', 's', 'c', 'h', 'e', 'm', 'a']

/-- The beginning of a defaults line. -/
def defaultsMark : List Char := ['@', 'd', 'e', 'f', 'a', 'u', 'l', 't', 's']

/-- The beginning of a line that marks a table as open to queries. -/
def queryableMark : List Char := ['@', 'q', 'u', 'e', 'r', 'y', 'a', 'b', 'l', 'e']

/-- The beginning of a line that holds a query. -/
def queryMark : List Char := ['@', 'q', 'u', 'e', 'r', 'y']

/-- A directive with a body in brackets. -/
def line (mark body : List Char) : List Char := mark ++ '[' :: (body ++ [']'])

/-- What stands in the brackets of a directive. -/
def body? (mark line : List Char) : Option (List Char) := do
  let rest ← Text.after? mark line
  Text.enclosed? '[' ']' (Text.trimStart rest)

/-- The dictionary line: references and quoted literals. -/
def dictionary (d : Dictionary) : List Char :=
  line dictionaryMark <| Literal.commaList <| d.entries.map fun e =>
    e.1.toList ++ ':' :: Literal.quote e.2.toList

/-- The schema line: names and kinds. -/
def schema (columns : Schema) : List Char :=
  line schemaMark <| Literal.commaList <| columns.map fun column =>
    FieldName.render column.1.toList ++ ':' :: column.2.name.toList

/-- The defaults line: names and literals. -/
def defaults (d : Dictionary) (values : Defaults) : List Char :=
  line defaultsMark <| Literal.commaList <| values.entries.map fun e =>
    FieldName.render e.1.toList ++ ':' :: Literal.render d e.2

/-- The line that marks a table as open to queries. -/
def queryable (table : String) : List Char := line queryableMark table.toList

/-- The line that holds a query. -/
def query (text : String) : List Char := line queryMark text.toList

end TableNotation.Directive
