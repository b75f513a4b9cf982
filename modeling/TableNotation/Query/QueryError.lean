import TableNotation.Query.Printer
import TableNotation.Query.Token
/-!
# Why a query fails
-/

namespace TableNotation

/-- Why a query cannot be read or run. -/
inductive QueryError where
  /-- A character with which no token begins. -/
  | invalidCharacter (position : Nat) (c : Char)
  /-- Another token than the one that has to come, or none. -/
  | expected (kind : TokenKind) (found : Option Token)
  /-- Another token than a value, or none. -/
  | expectedValue (found : Option Token)
  /-- An operator that is no comparison. -/
  | unknownOperator (token : Token)
  /-- A number that is no integer of a word and no double. -/
  | invalidNumber (token : Token)
  /-- A number that counts nothing. -/
  | invalidCount (clause : Keyword) (token : Token)
  /-- A token behind the end of the query. -/
  | unexpected (token : Token)
  /-- A name that no table has. -/
  | unknownTable (table : String)
  /-- A table that is no list. -/
  | notAList (table : String)
  /-- An item of a table that is no record. -/
  | notARecord (index : Nat) (table : String) (found : Kind)
  /-- A NOT without an operand. -/
  | missingOperand
  /-- A pattern that is refused, and why it is. -/
  | refusedPattern (pattern reason : String)
  /-- Two values of a field that have no order. -/
  | unordered (field : String) (left right : Kind)
  /-- A comparison of values that have no order. -/
  | incomparable (left right : Kind) (condition : Condition)

namespace QueryError

/-- A token as messages show it. -/
def describe (token : Token) : String :=
  let kind := token.kind.name
  let lexeme := token.lexeme
  s!"{kind} '{lexeme}'"

/-- A message about a place in the query. -/
def located (position : Nat) (message : String) : String := s!"at position {position}: {message}"

/-- A message that something else was expected. -/
def expectation (what : String) (found : Option Token) : String :=
  match found with
  | some token =>
    let description := describe token
    located token.position s!"expected {what}, got {description}"
  | none => s!"expected {what}, got end of input"

/-- What is wrong, in words. -/
def message : QueryError → String
  | invalidCharacter position c => located position s!"invalid character '{c}'"
  | expected kind found => expectation kind.name found
  | expectedValue found => expectation "value" found
  | unknownOperator token =>
    let lexeme := token.lexeme
    located token.position s!"unknown operator '{lexeme}'"
  | invalidNumber token =>
    let lexeme := token.lexeme
    located token.position s!"invalid number '{lexeme}'"
  | invalidCount clause token =>
    let clause := clause.name
    let lexeme := token.lexeme
    located token.position s!"{clause} expects a non-negative integer, got '{lexeme}'"
  | unexpected token =>
    let description := describe token
    located token.position s!"unexpected {description}"
  | unknownTable table => s!"Table '{table}' not found"
  | notAList table => s!"Table '{table}' is not a list of records"
  | notARecord index table found =>
    let kind := found.name
    s!"Record {index} in table '{table}' is a {kind}, not a record"
  | missingOperand => "NOT without an operand"
  | refusedPattern pattern reason => s!"invalid LIKE pattern '{pattern}': {reason}"
  | unordered field left right =>
    let left := left.name
    let right := right.name
    s!"cannot order '{field}' values of type {left} and {right}"
  | incomparable left right condition =>
    let left := left.name
    let right := right.name
    let condition := String.ofList condition.text
    s!"cannot compare {left} with {right} in '{condition}'"

end QueryError
end TableNotation
