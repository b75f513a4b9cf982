import TableNotation.Document.Encoding
/-!
# Streams of chunks

A long table can be written in chunks of so many records.  The first chunk has
the layout of the whole table and an ordinary header; every later one continues
the table.  The chunks with line feeds between them are the text of the table.

* `ChunkStream.chunk` is the chunk of a number, `ChunkStream.total` how many there
  are, and `ChunkStream.next?` takes them one by one.
-/

namespace TableNotation

/-- A piece of a table: the records from `first` up to, and without, `last`. -/
structure Chunk where
  index : Nat
  total : Nat
  table : String
  data : List Char
  first : Nat
  last : Nat
  totalRecords : Nat
  /-- The layout of the table, in the first chunk only. -/
  layout : Option Layout

namespace Chunk

/-- Whether the chunk begins the table. -/
def isFirst (chunk : Chunk) : Bool := chunk.index = 0

/-- Whether the chunk ends the table. -/
def isLast (chunk : Chunk) : Bool := chunk.index + 1 = chunk.total

/-- The number of records in the chunk. -/
def size (chunk : Chunk) : Nat := chunk.last - chunk.first

/-- The part of all chunks that is written with this one. -/
def progress (chunk : Chunk) : Double := Double.quotient (chunk.index + 1) chunk.total

end Chunk

/-- A table that is written in chunks, of which `done` are written. -/
structure ChunkStream where
  table : String
  records : List Record
  layout : Layout
  chunkSize : Nat
  chunkSize_pos : 0 < chunkSize
  done : Nat

namespace ChunkStream

/-- The number of chunks. -/
def total (stream : ChunkStream) : Nat :=
  (stream.records.length + (stream.chunkSize - 1)) / stream.chunkSize

/-- The chunk of a number. -/
def chunk (stream : ChunkStream) (index : Nat) : Chunk :=
  let first := index * stream.chunkSize
  let last := min (first + stream.chunkSize) stream.records.length
  let records := (stream.records.take last).drop first
  let head := if index = 0 then Encoding.layoutLines .empty stream.layout else []
  let header : Header := ⟨stream.table, records.length, index != 0⟩
  let rows := Encoding.rowLines .empty stream.layout records
  { index
    total := stream.total
    table := stream.table
    data := Text.joined ['\n'] (head ++ [] :: header.render :: rows)
    first
    last
    totalRecords := stream.records.length
    layout := if index = 0 then some stream.layout else none }

/-- The next chunk, and the stream behind it. -/
def next? (stream : ChunkStream) : Option (Chunk × ChunkStream) :=
  if stream.done < stream.total then
    some (stream.chunk stream.done, { stream with done := stream.done + 1 })
  else none

/-- The number of chunks that are not written yet. -/
def remaining (stream : ChunkStream) : Nat := stream.total - stream.done

/-- The chunks that are not written yet. -/
def rest (stream : ChunkStream) : List Chunk :=
  (List.range' stream.done stream.remaining).map stream.chunk

/-- The stream from its start. -/
def restart (stream : ChunkStream) : ChunkStream := { stream with done := 0 }

/-- The data of chunks with line feeds between them. -/
def text (chunks : List Chunk) : List Char := Text.joined ['\n'] (chunks.map Chunk.data)

/-- The table to be written: the one of a name, or the only one. -/
def selectTable (document : Document) (table : Option String) :
    Except EncodingError (String × Value) :=
  match document, table with
  | [], _ => .error .noTables
  | document, some name =>
    match document.get? name with
    | some value => .ok (name, value)
    | none => .error (.unknownTable name)
  | [only], none => .ok only
  | _, none => .error .severalTables

/-- The stream of a table of a document. -/
def ofDocument (optimize : Bool) (chunkSize : Nat) (chunkSize_pos : 0 < chunkSize)
    (document : Document) (table : Option String) : Except EncodingError ChunkStream := do
  let (name, value) ← selectTable document table
  match value with
  | .array items =>
    let records ← Value.recordsOf name items
    return {
      table := name
      records
      layout := Layout.infer optimize records
      chunkSize
      chunkSize_pos
      done := 0 }
  | _ => throw (.notStreamable name)

end ChunkStream
end TableNotation
