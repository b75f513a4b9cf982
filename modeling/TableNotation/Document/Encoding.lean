import TableNotation.Compression.Algorithm
import TableNotation.Settings.Basic
import TableNotation.Table.Directive
import TableNotation.Table.Row
/-!
# Encoding a document

A document is written table by table: a schema line, a line of defaults if there
are any, a blank line, the header and the rows, each row behind two blanks.  In
front of the tables stands the dictionary if there is one.

* `Document.validate` refuses what is not a list of records;
* `Encoding.lines` are the lines of a document under given settings, and `encode`
  is the text.
-/

namespace TableNotation

/-- Why a document cannot be encoded. -/
inductive EncodingError where
  /-- A table that is no list. -/
  | notAList (table : String)
  /-- An item of a table that is no record. -/
  | notARecord (index : Nat) (table : String) (found : Kind)
  /-- A document without tables where one is needed. -/
  | noTables
  /-- A name that no table has. -/
  | unknownTable (table : String)
  /-- Several tables where one has to be chosen. -/
  | severalTables
  /-- A table for a stream that is no list. -/
  | notStreamable (table : String)
  deriving DecidableEq

namespace EncodingError

/-- What is wrong, in words. -/
def message : EncodingError → String
  | notAList table => s!"Table '{table}' must be a list of records"
  | notARecord index table found =>
    let kind := found.name
    s!"Record {index} in table '{table}' must be a dictionary, found {kind}"
  | noTables => "Empty data provided"
  | unknownTable table => s!"Table '{table}' not found"
  | severalTables => "Multiple tables found, specify table_name"
  | notStreamable table => s!"Table '{table}' must be a list"

end EncodingError

/-- The records of the items of a table. -/
def Value.recordsOf (table : String) (items : List Value) : Except EncodingError (List Record) :=
  (recordsFrom 0 items).mapError fun (index, kind) => .notARecord index table kind

/-- Refuses documents with anything but lists of records. -/
def Document.validate : Document → Except EncodingError Unit
  | [] => .ok ()
  | (name, .array items) :: rest => do
    let _ ← Value.recordsOf name items
    Document.validate rest
  | (name, _) :: _ => .error (.notAList name)

namespace Encoding

/-- The blanks in front of a row. -/
def indent : List Char := [' ', ' ']

/-- The lines of records as rows. -/
def rowLines (dictionary : Dictionary) (layout : Layout) (records : List Record) :
    List (List Char) :=
  records.map fun record => indent ++ Row.render dictionary layout record

/-- The lines of a layout: the schema, and the defaults if there are any. -/
def layoutLines (dictionary : Dictionary) (layout : Layout) : List (List Char) :=
  Directive.schema layout.schema ::
    if layout.defaults.isEmpty then [] else [Directive.defaults dictionary layout.defaults]

/-- The lines of a table. -/
def tableLines (settings : Settings) (dictionary : Dictionary) (name : String)
    (records : List Record) : List (List Char) :=
  let layout := Layout.infer settings.optimize records
  layoutLines dictionary layout
    ++ (if settings.queryable then [Directive.queryable name] else [])
    ++ [] :: Header.render ⟨name, records.length, false⟩ :: rowLines dictionary layout records

/-- The lines of a dictionary, if it has entries, and a blank line. -/
def dictionaryLines (dictionary : Dictionary) : List (List Char) :=
  if dictionary.isEmpty then [] else [Directive.dictionary dictionary, []]

/-- The lines of the tables of a document.  What is no list is left out, and so is
what is no record in a list. -/
def tablesLines (settings : Settings) (dictionary : Dictionary) (document : Document) :
    List (List Char) :=
  document.flatMap fun
    | (name, .array items) =>
      tableLines settings dictionary name (items.filterMap Value.asObject?)
    | _ => []

/-- The document to be written, with references, and the dictionary for them; the
fast mode has none. -/
def compressed (settings : Settings) (compress : Bool) (document : Document) :
    Document × Dictionary :=
  if compress && settings.mode != .fast then
    let (document, record) := Compression.run settings.thresholds settings.mode document
    (document, record.activeDictionary)
  else (document, .empty)

/-- The lines of a document. -/
def lines (settings : Settings) (compress : Bool) (document : Document) : List (List Char) :=
  let (document, dictionary) := compressed settings compress document
  dictionaryLines dictionary ++ tablesLines settings dictionary document

end Encoding

/-- The characters of the text of a document. -/
def encodeChars (settings : Settings) (compress : Bool) (document : Document) :
    Except EncodingError (List Char) := do
  if settings.validate then document.validate
  return Text.joined ['\n'] (Encoding.lines settings compress document)

/-- The text of a document. -/
def encode (settings : Settings) (compress : Bool) (document : Document) :
    Except EncodingError String :=
  (encodeChars settings compress document).map String.ofList

/-- The sizes of a document and of its text. -/
structure EncodingStatistics where
  documentSize : Nat
  textSize : Nat
  ratio : Double
  mode : Mode
  dictionarySize : Nat

/-- The text of a document, and its sizes in bytes beside those of the JSON text. -/
def encodeWithStatistics (settings : Settings) (document : Document) :
    Except EncodingError (String × EncodingStatistics) := do
  let text ← encode settings true document
  let documentSize := Compression.jsonSize document
  let textSize := text.utf8ByteSize
  return (text, {
    documentSize
    textSize
    ratio := Double.quotient textSize documentSize
    mode := settings.mode
    dictionarySize := (Encoding.compressed settings true document).2.size })

end TableNotation
