import TableNotation.Document.Encoding
import TableNotation.Query.Printer
import TableNotation.Stream.Chunk
/-!
# Reports

What the program shows to a reader: records as a table with columns of even
width, the parts of a query, and sizes.  Every report is a list of lines.
-/

namespace TableNotation.Report

/-- A text with blanks behind it up to a width. -/
def padded (width : Nat) (s : String) : String :=
  s ++ String.ofList (List.replicate (width - s.length) ' ')

/-- A value in a column: texts stand without quotes. -/
def cell : Value → String
  | .null => "NULL"
  | .string s => s
  | v => Json.compact v

/-- The value of a record in a column, nothing if it has none. -/
def cellOf (column : String) (record : Record) : String :=
  ((Fields.get? column record).map cell).getD ""

/-- The width of a column: that of its widest cell or of its name. -/
def width (records : List Record) (column : String) : Nat :=
  (records.map fun record => (cellOf column record).length).foldl max column.length

/-- Records in columns, which are the fields of the first record. -/
def table : List Record → List String
  | [] => ["(no results)"]
  | first :: rest =>
    let records := first :: rest
    let columns := (Fields.keys first).map fun column => (column, width records column)
    let row (content : String → String) : String :=
      " │ ".intercalate (columns.map fun (column, width) => padded width (content column))
    let rule := "─┼─".intercalate <| columns.map fun (_, width) =>
      String.ofList (List.replicate width '─')
    let count := toString records.length
    row id :: rule :: records.map (fun record => row fun column => cellOf column record)
      ++ ["", s!"{count} row(s) returned"]

/-- The blanks in front of a line of a depth. -/
def indent (depth : Nat) : String := String.ofList (List.replicate (2 * depth) ' ')

mutual

/-- A node of a condition, each operand on a line deeper than its connective. -/
def node (depth : Nat) : Node → List String
  | .condition c => [indent depth ++ String.ofList c.text]
  | .group connective operands =>
    (indent depth ++ connective.name) :: nodes (depth + 1) operands

/-- The nodes of a condition that stand at one depth. -/
def nodes (depth : Nat) : List Node → List String
  | [] => []
  | operand :: rest => node depth operand ++ nodes depth rest

end

/-- What stands above the parts of a query. -/
def queryHeading (text : String) : List String :=
  ["ATON Query Explanation", "", s!"Query: {text}", ""]

/-- The parts of a query, and the query in its usual form. -/
def query (q : Query) : List String :=
  let table := q.table
  let fields := (q.fields.map fun fields => ", ".intercalate fields).getD "*"
  let direction := q.direction.name
  let offset := toString q.offset
  let normalized := String.ofList q.text
  ["Parsed Structure:", s!"  Table: {table}", s!"  Select: {fields}"]
    ++ (match q.filter with
      | some group => "  Where:" :: node 2 (.group group.connective group.operands)
      | none => [])
    ++ (q.orderBy.map fun field => s!"  Order: {field} {direction}").toList
    ++ (q.limit.map fun limit => "  Limit: " ++ toString limit).toList
    ++ (if 0 < q.offset then [s!"  Offset: {offset}"] else [])
    ++ ["", "Normalized:", s!"  {normalized}"]

/-- A hundred times a fraction. -/
def percent (x : Double) : Double := (x.mul? (Double.quotient 100 1)).getD x

/-- A fraction in percent with some decimal places. -/
def percentText (places : Nat) (x : Double) : String :=
  String.ofList ((percent x).fixedText places)

/-- The sizes of a document and of its text, and what was saved. -/
def statistics (s : EncodingStatistics) : List String :=
  let mode := s.mode.name
  let document := toString s.documentSize
  let text := toString s.textSize
  let saved := percentText 1 (((Double.quotient 1 1).sub? s.ratio).getD (.zero false))
  let entries := toString s.dictionarySize
  ["Compression Stats:", s!"  Mode: {mode}", s!"  Original: {document} bytes",
   s!"  Encoded: {text} bytes", s!"  Saved: {saved}%", s!"  Dictionary: {entries} entries"]

/-- How far a stream is with a chunk. -/
def chunk (c : Chunk) : String :=
  let number := toString (c.index + 1)
  let total := toString c.total
  let size := toString c.size
  let done := percentText 0 c.progress
  s!"▸ chunk {number}/{total} ({size} records, {done}%)"

/-- The modes with what they do. -/
def modes : List String :=
  Mode.all.map fun mode => padded 10 mode.name ++ " " ++ mode.description

end TableNotation.Report
