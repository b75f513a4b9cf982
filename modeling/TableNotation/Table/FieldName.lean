import TableNotation.Literal.Escape
import TableNotation.Text.Blank
import TableNotation.Text.Pieces
/-!
# Names of fields

In a schema and in defaults a field name stands bare if nothing in it can be
taken for something else, and quoted otherwise.
-/

namespace TableNotation.FieldName

/-- The characters that a bare name does not have. -/
def isSpecial (c : Char) : Bool :=
  [',', ':', '"', '\\', '[', ']', '\x7b', '\x7d', '\n', '\r'].contains c

/-- Whether a name can stand bare: it is not empty, has no blanks around it, does
not begin with `#` and has no special character. -/
def isBare (name : List Char) : Bool :=
  !name.isEmpty && Text.trim name == name && name.head? != some '#' && !name.any isSpecial

/-- The text of a field name. -/
def render (name : List Char) : List Char :=
  if isBare name then name else Literal.quote name

/-- The field name of a text: what stands in double quotes, or the text itself. -/
def parse (text : List Char) : List Char :=
  let s := Text.trim text
  match Text.enclosed? '"' '"' s with
  | some inner => Literal.unescape inner
  | none => s

end TableNotation.FieldName
