import TableNotation.Failure
import TableNotation.Query.Execution
/-!
# Writing a selection

The records that answer a query are written as a table of their own, behind a
line that shows the query.
-/

namespace TableNotation

/-- The document with the records that answer a query as its only table. -/
def Query.selection [PatternLimit] (q : Query) (document : Document) :
    Except QueryError Document := do
  let records ← q.execute document
  return [(q.table, .array (records.map .object))]

/-- The text of the selection of a query, without the line of the query. -/
def encodeSelected [PatternLimit] (settings : Settings) (document : Document) (text : String) :
    Except Failure String := do
  let q ← (Query.parse text).mapError .query
  let selected ← (q.selection document).mapError .query
  (encode settings true selected).mapError .encoding

/-- The text of the selection of a query.  Whatever fails is a failure of the
selection. -/
def encodeSelection [PatternLimit] (settings : Settings) (document : Document) (text : String) :
    Except Failure String :=
  match encodeSelected settings document text with
  | .ok encoded =>
    .ok (String.ofList (Directive.query text ++ ['\n', '\n'] ++ encoded.toList))
  | .error cause => .error (.selection cause)

end TableNotation
