import TableNotation.Query.Filter
import TableNotation.Query.Ordering
import TableNotation.Query.Parser
/-!
# Running a query

The records of a table are filtered, then narrowed to the wanted fields, then
ordered, and at last cut to the wanted part.  So records are ordered by the fields
that are left.
-/

namespace TableNotation

namespace Query

/-- The records of a table of a document. -/
def tableRecords (document : Document) (table : String) : Except QueryError (List Record) :=
  match Fields.get? table document with
  | none => .error (.unknownTable table)
  | some (.array items) =>
    (Value.recordsFrom 0 items).mapError fun (index, kind) => .notARecord index table kind
  | some _ => .error (.notAList table)

end Query

/-- The wanted fields of a record, null standing for one that it lacks. -/
def Record.project (fields : List String) (record : Record) : Record :=
  Fields.ofEntries (fields.map fun field => (field, Fields.getOrNull field record))

namespace Query

/-- The records that a query filters out of a list. -/
def filtered [PatternLimit] (q : Query) (records : List Record) : Except QueryError (List Record) :=
  match q.filter with
  | some group => do
    let filter ← Filter.ofGroup group
    filter.select records
  | none => .ok records

/-- The records with the fields that a query wants. -/
def projected (q : Query) (records : List Record) : List Record :=
  match q.fields with
  | some fields => records.map (Record.project fields)
  | none => records

/-- The records in the order that a query wants. -/
def inOrder (q : Query) (records : List Record) : Except QueryError (List Record) :=
  match q.orderBy with
  | some field => Record.sort field q.direction records
  | none => .ok records

/-- The part of the records that a query wants. -/
def page (q : Query) (records : List Record) : List Record :=
  let behind := records.drop q.offset
  match q.limit with
  | some limit => behind.take limit
  | none => behind

/-- The records of a document that answer a query. -/
def execute [PatternLimit] (q : Query) (document : Document) : Except QueryError (List Record) := do
  let records ← tableRecords document q.table
  let records ← q.filtered records
  let records ← q.inOrder (q.projected records)
  return q.page records

end Query
end TableNotation
