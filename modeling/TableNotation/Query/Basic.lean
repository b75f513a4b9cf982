import TableNotation.Value.Basic
/-!
# Queries

A query names a table and says which records of it are wanted, with which
fields, in which order, and which part of them.

* A condition compares a field with a literal, and conditions are grouped by AND,
  OR and NOT into a tree of `Node`s; the root of the tree is a `Group`.
-/

namespace TableNotation

/-- The comparisons of a condition. -/
inductive Comparison where
  | equal
  | unequal
  | less
  | greater
  | atMost
  | atLeast
  | like
  | among
  | notAmong
  | between
  deriving DecidableEq

namespace Comparison

/-- The spelling of a comparison. -/
def symbol : Comparison → String
  | equal => "="
  | unequal => "!="
  | less => "<"
  | greater => ">"
  | atMost => "<="
  | atLeast => ">="
  | like => "LIKE"
  | among => "IN"
  | notAmong => "NOT IN"
  | between => "BETWEEN"

/-- The comparison of an operator symbol; unequal has two spellings. -/
def ofSymbol? (symbol : String) : Option Comparison :=
  if symbol = "<>" then some .unequal
  else [equal, unequal, less, greater, atMost, atLeast].find? fun c => c.symbol = symbol

end Comparison

/-- A comparison of a field with a literal.  The literal of `IN` is the list of
candidates, and `BETWEEN` has a second literal. -/
structure Condition where
  field : String
  comparison : Comparison
  value : Value
  upper : Option Value

/-- The ways to join conditions. -/
inductive Connective where
  | and
  | or
  | not
  deriving DecidableEq

/-- The spelling of a connective. -/
def Connective.name : Connective → String
  | and => "AND"
  | or => "OR"
  | not => "NOT"

/-- A tree of conditions. -/
inductive Node where
  | condition (condition : Condition)
  | group (connective : Connective) (operands : List Node)

/-- Conditions joined by a connective. -/
structure Group where
  connective : Connective
  operands : List Node

/-- The group of a node: a condition alone becomes an AND of one. -/
def Node.toGroup : Node → Group
  | .condition c => ⟨.and, [.condition c]⟩
  | .group connective operands => ⟨connective, operands⟩

/-- The directions of an order. -/
inductive Direction where
  | ascending
  | descending
  deriving DecidableEq

/-- The spelling of a direction. -/
def Direction.name : Direction → String
  | ascending => "ASC"
  | descending => "DESC"

/-- A query. -/
structure Query where
  table : String
  /-- The fields that are wanted; all if there is no list. -/
  fields : Option (List String)
  /-- The condition on records. -/
  filter : Option Group
  /-- The field by which records are ordered. -/
  orderBy : Option String
  direction : Direction
  /-- The number of records that are wanted at most. -/
  limit : Option Nat
  /-- The number of records that are left out first. -/
  offset : Nat

end TableNotation
