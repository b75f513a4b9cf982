import TableNotation.Json.Printer
import TableNotation.Query.Basic
/-!
# The text of a query

A query is written back in its own language.  A group with more than one operand
stands in parentheses inside another group; texts stand in single quotes as they
are.
-/

namespace TableNotation

/-- A single quote. -/
def singleQuote : List Char := ['\'']

/-- Parts with a separator between any two. -/
def separated (separator : String) (parts : List (List Char)) : List Char :=
  Text.joined separator.toList parts

mutual

/-- The text of a literal. -/
def Value.queryText : Value → List Char
  | .string s => singleQuote ++ (s.toList ++ singleQuote)
  | .null => "NULL".toList
  | .bool true => "TRUE".toList
  | .bool false => "FALSE".toList
  | .array items => '(' :: (separated ", " (Value.queryTexts items) ++ [')'])
  | v => Json.text v

/-- The texts of literals. -/
def Value.queryTexts : List Value → List (List Char)
  | [] => []
  | v :: rest => v.queryText :: Value.queryTexts rest

end

/-- The text of a condition. -/
def Condition.text (c : Condition) : List Char :=
  c.field.toList ++ ' ' :: (c.comparison.symbol.toList ++ ' ' :: c.value.queryText)
    ++ match c.upper with
      | some upper => " AND ".toList ++ upper.queryText
      | none => []

/-- The texts of operands joined by a connective; NOT has one operand. -/
def Connective.joinTexts (connective : Connective) (texts : List (List Char)) : List Char :=
  match connective with
  | .not => "NOT ".toList ++ texts.headD []
  | c => separated (" " ++ c.name ++ " ") texts

mutual

/-- The text of a node inside a group. -/
def Node.text : Node → List Char
  | .condition c => c.text
  | .group connective operands =>
    let inner := connective.joinTexts (Node.texts operands)
    if 1 < operands.length then '(' :: (inner ++ [')']) else inner

/-- The texts of operands. -/
def Node.texts : List Node → List (List Char)
  | [] => []
  | node :: rest => node.text :: Node.texts rest

end

/-- The text of a group that stands alone. -/
def Group.text (g : Group) : List Char := g.connective.joinTexts (Node.texts g.operands)

/-- The text of a clause, if there is one. -/
def clause {α : Type} (word : String) (text : α → List Char) : Option α → List Char
  | some a => word.toList ++ text a
  | none => []

/-- The text of a query. -/
def Query.text (q : Query) : List Char :=
  q.table.toList
    ++ clause " SELECT " (fun fields => separated ", " (fields.map String.toList)) q.fields
    ++ clause " WHERE " Group.text q.filter
    ++ clause " ORDER BY " (fun field => field.toList ++ ' ' :: q.direction.name.toList) q.orderBy
    ++ clause " LIMIT " Decimal.digitsOf q.limit
    ++ clause " OFFSET " Decimal.digitsOf (if 0 < q.offset then some q.offset else none)

end TableNotation
