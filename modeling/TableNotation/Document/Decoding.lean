import TableNotation.Document.DecodingError
import TableNotation.Json.Printer
import TableNotation.Table.Directive
import TableNotation.Table.Row
/-!
# Decoding a text

A text is read line by line.  Directives set the dictionary, the schema and the
defaults that hold from there on; a header opens a table, and the lines below it
are its rows until it has as many as the header says.  Blank lines, and
directives of other names, count for nothing.

* `Directives.apply` is the effect of a directive, `Scan.take` the effect of a
  line;
* `decode` takes all lines of a text and asks that no table is left open.
-/

namespace TableNotation

/-- The directives in force at a line. -/
structure Directives where
  dictionary : Dictionary
  layout : Layout

namespace Directives

/-- Nothing is in force at the start of a text. -/
def initial : Directives := ⟨.empty, .empty⟩

/-- The text of a literal in a dictionary: a text is meant itself, and any other
value its JSON text. -/
def literalText (literal : List Char) : String :=
  match Literal.parse .empty literal with
  | .string s => s
  | v => Json.compact v

/-- Cuts each slot of a body at its colon. -/
def entries (number : Nat) (part : DirectivePart) (body : List Char) :
    Except DecodingError (List (List Char × List Char)) :=
  (Literal.slots body).mapM fun slot =>
    match Literal.pair? slot with
    | some pair => .ok pair
    | none => .error (.malformed number part (String.ofList slot))

/-- The body of a directive. -/
def body (number : Nat) (part : DirectivePart) (mark line : List Char) :
    Except DecodingError (List Char) :=
  match Directive.body? mark line with
  | some body => .ok body
  | none => .error (.malformed number part (String.ofList line))

/-- The dictionary of a directive's body. -/
def readDictionary (number : Nat) (body : List Char) : Except DecodingError Dictionary := do
  let entries ← entries number .dictionaryEntry body
  return SortedMap.ofList (entries.map fun e => (String.ofList e.1, literalText e.2))

/-- The column of an entry of a schema. -/
def readColumn (number : Nat) (slot : List Char) : Except DecodingError (String × Kind) :=
  match Literal.pair? slot with
  | none => .error (.malformed number .schemaEntry (String.ofList slot))
  | some (name, word) =>
    match Kind.ofName? (String.ofList word) with
    | some kind => .ok (String.ofList (FieldName.parse name), kind)
    | none => .error (.unknownKind (String.ofList word))

/-- The schema of a directive's body. -/
def readSchema (number : Nat) (body : List Char) : Except DecodingError Schema :=
  (Literal.slots body).mapM (readColumn number)

/-- The defaults of a directive's body. -/
def readDefaults (number : Nat) (dictionary : Dictionary) (body : List Char) :
    Except DecodingError Defaults := do
  let entries ← entries number .defaultsEntry body
  return SortedMap.ofList (entries.map fun e =>
    (String.ofList (FieldName.parse e.1), Literal.parse dictionary e.2))

/-- The effect of a directive.  A schema comes without defaults. -/
def apply (state : Directives) (number : Nat) (line : List Char) :
    Except DecodingError Directives :=
  if Directive.dictionaryMark.isPrefixOf line then do
    let body ← body number .dictionary Directive.dictionaryMark line
    return { state with dictionary := ← readDictionary number body }
  else if Directive.schemaMark.isPrefixOf line then do
    let body ← body number .schema Directive.schemaMark line
    return { state with layout := ⟨← readSchema number body, .empty⟩ }
  else if Directive.defaultsMark.isPrefixOf line then do
    let body ← body number .defaults Directive.defaultsMark line
    let defaults ← readDefaults number state.dictionary body
    return { state with layout := { state.layout with defaults } }
  else .ok state

end Directives

/-- A table whose rows are being read, the last row first. -/
structure Block where
  header : Header
  rows : List Record

/-- How far the reading of a text is: the directives in force, the tables that are
complete, and the table that is open. -/
structure Scan where
  directives : Directives
  document : Document
  block : Option Block

namespace Scan

/-- The state at the start of a text. -/
def initial : Scan := ⟨.initial, [], none⟩

/-- Adds a finished table: a continuation goes behind the rows of its table, and
any other table takes the place of the one with its name. -/
def addTable (document : Document) (header : Header) (rows : List Value) : Document :=
  let rows := match header.continuation, document.get? header.name with
    | true, some (.array earlier) => earlier ++ rows
    | _, _ => rows
  document.insert header.name (.array rows)

/-- Closes a table that has all its rows. -/
def closeIfFull (scan : Scan) (block : Block) : Scan :=
  if block.rows.length < block.header.count then { scan with block := some block }
  else
    { scan with
      document := addTable scan.document block.header (block.rows.reverse.map .object)
      block := none }

/-- The error of a table that is left open. -/
def missingRows (block : Block) : DecodingError :=
  .missingRows block.header.name block.header.count block.rows.length

/-- The effect of a line outside tables. -/
def takeOutside (scan : Scan) (number : Nat) (line : List Char) : Except DecodingError Scan :=
  if line.head? = some '@' then do
    return { scan with directives := ← scan.directives.apply number line }
  else
    match Header.read? line with
    | none => .error (.unexpectedLine number (String.ofList line))
    | some header =>
      if header.count < Header.countLimit then .ok (scan.closeIfFull ⟨header, []⟩)
      else .error .countTooLarge

/-- The effect of a line below a header: a directive is skipped, and a line that
looks like a header comes too early. -/
def takeInside (scan : Scan) (block : Block) (line : List Char) : Except DecodingError Scan :=
  if Header.looksLike line then .error (missingRows block)
  else if line.head? = some '@' then .ok scan
  else
    let row := Row.parse scan.directives.dictionary scan.directives.layout line
    .ok (scan.closeIfFull { block with rows := row :: block.rows })

/-- The effect of a numbered line, given without the blanks around it. -/
def take (scan : Scan) (line : Nat × List Char) : Except DecodingError Scan :=
  if line.2.isEmpty then .ok scan
  else match scan.block with
    | none => scan.takeOutside line.1 line.2
    | some block => scan.takeInside block line.2

/-- The document at the end of the text. -/
def finish (scan : Scan) : Except DecodingError Document :=
  match scan.block with
  | none => .ok scan.document
  | some block => .error (missingRows block)

end Scan

/-- The lines of a text with their numbers from `first` on, without the blanks
around them. -/
def numberedLines (first : Nat) : List (List Char) → List (Nat × List Char)
  | [] => []
  | line :: rest => (first, Text.trim line) :: numberedLines (first + 1) rest

/-- The document of the characters of a text. -/
def decodeChars (text : List Char) : Except DecodingError Document := do
  let scan ← (numberedLines 1 (Text.lines text)).foldlM Scan.take Scan.initial
  scan.finish

/-- The document of a text. -/
def decode (text : String) : Except DecodingError Document := decodeChars text.toList

end TableNotation
