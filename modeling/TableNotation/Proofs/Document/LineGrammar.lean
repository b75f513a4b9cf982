import TableNotation.Document.Decoding
/-!
# The grammar of lines

Which texts are documents is said here without reading them from the top.  Of the lines of
a text, trimmed, the blank ones count for nothing.  The others are a sequence of items: a
directive is an item of its own, and a header is one together with as many rows as it says.

    text  = item, more items
    item  = directive | header, rows
    rows  = row, more rows; in front of each row there may be directives, which are not read

What the items mean is said from part to part of a table: each row is one record, and a
part that is no continuation takes the place of what its table had before.

* `Item.Spells`, `Item.Sequence`: which lines make up which items.
* `Item.parts`: the parts of tables that items hold.
* `Part.current`, `Part.document`: the parts that a table consists of, and all tables.
-/

namespace TableNotation

/-- A line that has no blanks around it and is not blank. -/
def IsFilled (line : List Char) : Prop := Text.trim line = line ∧ line ≠ []

/-- The lines of a text without the blanks around them, blank lines being left out. -/
def filledLines (text : List Char) : List (List Char) :=
  ((Text.lines text).map Text.trim).filter fun line => !line.isEmpty

namespace Directive

/-- Behind its mark a directive has brackets, and of the entries in them each is in order. -/
def HasEntries (mark : List Char) (IsEntry : List Char → Prop) (line : List Char) : Prop :=
  ∃ body, body? mark line = some body ∧ ∀ entry ∈ Literal.slots body, IsEntry entry

/-- An entry that has a colon outside quotes. -/
def IsPair (entry : List Char) : Prop := ∃ pair, Literal.pair? entry = some pair

/-- An entry that has the name of a kind behind its colon. -/
def IsColumn (entry : List Char) : Prop :=
  ∃ name word kind, Literal.pair? entry = some (name, word) ∧
    Kind.ofName? (String.ofList word) = some kind

/-- A directive that can be obeyed: if it begins like a dictionary, a schema or defaults, it
has the form of one.  Directives of other names may have any form. -/
structure IsWellFormed (line : List Char) : Prop where
  dictionary : dictionaryMark <+: line → HasEntries dictionaryMark IsPair line
  schema : schemaMark <+: line → HasEntries schemaMark IsColumn line
  defaults : defaultsMark <+: line → HasEntries defaultsMark IsPair line

end Directive

/-- The lines below a header and the rows among them.  A directive in front of a row is
skipped; a row is neither a directive nor anything like a header. -/
inductive Rows : List (List Char) → List (List Char) → Prop
  | nil : Rows [] []
  | skip {line row : List Char} {lines rows : List (List Char)} (hmark : line.head? = some '@')
      (hrest : Rows lines (row :: rows)) : Rows (line :: lines) (row :: rows)
  | row {line : List Char} {lines rows : List (List Char)} (hmark : line.head? ≠ some '@')
      (hlooks : Header.looksLike line = false) (hrest : Rows lines rows) :
      Rows (line :: lines) (line :: rows)

/-- What a text is made of: directives, and headers with their rows. -/
inductive Item where
  | directive (line : List Char)
  | block (header : Header) (rows : List (List Char))

namespace Item

/-- The lines of an item. -/
inductive Spells : List (List Char) → Item → Prop
  | directive {line : List Char} (hmark : line.head? = some '@')
      (hline : Directive.IsWellFormed line) : Spells [line] (.directive line)
  | block {line : List Char} {lines rows : List (List Char)} {header : Header}
      (hmark : line.head? ≠ some '@') (hheader : Header.read? line = some header)
      (hcount : header.count < Header.countLimit) (hrows : Rows lines rows)
      (hlength : rows.length = header.count) : Spells (line :: lines) (.block header rows)

/-- The lines of items one after the other. -/
inductive Sequence : List (List Char) → List Item → Prop
  | nil : Sequence [] []
  | cons {lines more : List (List Char)} {item : Item} {items : List Item}
      (hitem : Spells lines item) (hmore : Sequence more items) :
      Sequence (lines ++ more) (item :: items)

end Item

/-- The directives in force behind a directive.  The number of the line plays no part in
it: it is told in errors only. -/
def Directives.after (state : Directives) (line : List Char) : Directives :=
  match state.apply 0 line with
  | .ok next => next
  | .error _ => state

/-- A header and the records of its rows. -/
structure Part where
  header : Header
  records : List Record

/-- The parts of tables that items hold.  Each row is one record, which is read under the
directives in force at the header. -/
def Item.parts (state : Directives) : List Item → List Part
  | [] => []
  | .directive line :: rest => parts (state.after line) rest
  | .block header rows :: rest =>
    ⟨header, rows.map (Row.parse state.dictionary state.layout)⟩ :: parts state rest

namespace Part

/-- The parts of the table of a name. -/
def ofTable (name : String) (parts : List Part) : List Part :=
  parts.filter fun part => part.header.name = name

/-- The parts of a table that count: those from the last one on that is no continuation, or
all of them if they all are continuations. -/
def current : List Part → List Part
  | [] => []
  | part :: rest =>
    if rest.all fun other => other.header.continuation then part :: rest else current rest

/-- The rows of parts, one behind the other. -/
def rows (parts : List Part) : List Value := parts.flatMap fun part => part.records.map .object

/-- The table that consists of parts, if there are any. -/
def table? : List Part → Option Value
  | [] => none
  | part :: rest => some (.array (rows (current (part :: rest))))

/-- The document with a part of a table added. -/
def add (document : Document) (part : Part) : Document :=
  Scan.addTable document part.header (part.records.map .object)

/-- The document of parts that are added one after the other. -/
def document (parts : List Part) : Document := parts.foldl add []

end Part
end TableNotation
