import TableNotation.Query.QueryError
import TableNotation.Text.Wildcard
import TableNotation.Value.Order
/-!
# Filters

A condition holds of a record, or fails to, or is an error because it compares
values without an order.

* A field that a record lacks satisfies no condition, and null satisfies no
  comparison by order.
* `LIKE` looks for a pattern in a text, and `IN` for a value among candidates.  A pattern
  is refused if it is beyond the limit on patterns, whatever it is.
* AND and OR ask their operands in order and stop at the first answer that
  decides, so an error behind it does not count.
* A `Filter` is a tree of conditions whose patterns have been read, and in which
  each NOT has its operand.  It is made before any record is looked at, so a pattern
  that is refused is an error of the whole tree.
-/

namespace TableNotation

namespace Condition

/-- Whether the order of two values is one of the wanted ones; the left one may be
null, and then it is not. -/
def ordered (c : Condition) (left right : Value) (wanted : Ordering → Bool) :
    Except QueryError Bool :=
  if left.isNull then .ok false
  else match left.compare? right with
    | some order => .ok (wanted order)
    | none => .error (.incomparable left.kind right.kind c)

/-- The candidates of `IN`: the items of a list, and a single value otherwise. -/
def candidates : Value → List Value
  | .array items => items
  | v => [v]

/-- Whether a value is one of the candidates. -/
def isCandidate (c : Condition) (actual : Value) : Bool :=
  (candidates c.value).any actual.equal

/-- The text of the pattern of `LIKE`: a text is one as it is, and other values are by their
JSON text. -/
def patternText (c : Condition) : List Char :=
  match c.value with
  | .string text => text.toList
  | other => Json.text other

/-- The pattern of `LIKE`. -/
def pattern (c : Condition) : List Wildcard := Wildcard.ofPattern c.patternText

/-- The pattern of `LIKE`, unless it is refused. -/
def readPattern [PatternLimit] (c : Condition) : Except QueryError (List Wildcard) :=
  match PatternLimit.refusal? c.patternText with
  | none => .ok c.pattern
  | some reason => .error (.refusedPattern (String.ofList c.patternText) reason)

/-- The pattern of a condition that has one. -/
def pattern? [PatternLimit] (c : Condition) : Except QueryError (Option (List Wildcard)) :=
  if c.comparison = .like then some <$> c.readPattern else .ok none

/-- Whether a value lies between the two literals, both included. -/
def isBetween (c : Condition) (actual : Value) : Except QueryError Bool :=
  if actual.isNull then .ok false
  else do
    if ← c.ordered c.value actual Ordering.isLE then
      c.ordered actual (c.upper.getD .null) Ordering.isLE
    else return false

/-- Whether a value satisfies a condition, given the pattern of `LIKE`. -/
def holdsOf (c : Condition) (pattern : Option (List Wildcard)) (actual : Value) :
    Except QueryError Bool :=
  match c.comparison with
  | .equal => .ok (actual.equal c.value)
  | .unequal => .ok (!actual.equal c.value)
  | .less => c.ordered actual c.value Ordering.isLT
  | .greater => c.ordered actual c.value Ordering.isGT
  | .atMost => c.ordered actual c.value Ordering.isLE
  | .atLeast => c.ordered actual c.value Ordering.isGE
  | .like =>
    match actual, pattern with
    | .string text, some pattern => .ok (Wildcard.isFound pattern text.toList)
    | _, _ => .ok false
  | .among => .ok (c.isCandidate actual)
  | .notAmong => .ok (!c.isCandidate actual)
  | .between => c.isBetween actual

/-- Whether a record satisfies a condition, given the pattern of `LIKE`. -/
def acceptsWith (c : Condition) (pattern : Option (List Wildcard)) (record : Record) :
    Except QueryError Bool :=
  match Fields.get? c.field record with
  | some actual => c.holdsOf pattern actual
  | none => .ok false

/-- Whether a record satisfies a condition.  A pattern is read before the record is looked at. -/
def accepts [PatternLimit] (c : Condition) (record : Record) : Except QueryError Bool := do
  c.acceptsWith (← c.pattern?) record

theorem pattern?_of_ne_like [PatternLimit] {c : Condition} (h : c.comparison ≠ .like) :
    c.pattern? = .ok none := if_neg h

/-- A condition without a pattern is asked at once. -/
theorem accepts_of_ne_like [PatternLimit] {c : Condition} (h : c.comparison ≠ .like)
    (record : Record) : c.accepts record = c.acceptsWith none record := by
  rw [accepts, pattern?_of_ne_like h]
  rfl

end Condition

/-- A tree of conditions that is ready for records. -/
inductive Filter where
  /-- Satisfied if all parts are. -/
  | all (parts : List Filter)
  /-- Satisfied if any part is. -/
  | any (parts : List Filter)
  /-- Satisfied if the part is not. -/
  | not (part : Filter)
  /-- A condition and its pattern. -/
  | leaf (condition : Condition) (pattern : Option (List Wildcard))

namespace Filter

/-- The parts joined by a connective; NOT takes the first. -/
def join : Connective → List Filter → Except QueryError Filter
  | .and, parts => .ok (all parts)
  | .or, parts => .ok (any parts)
  | .not, part :: _ => .ok (not part)
  | .not, [] => .error .missingOperand

mutual

/-- The filter of a node. -/
def ofNode [PatternLimit] : Node → Except QueryError Filter
  | .condition c => do return leaf c (← c.pattern?)
  | .group connective operands => do
    let parts ← ofNodes operands
    join connective parts

/-- The filters of nodes. -/
def ofNodes [PatternLimit] : List Node → Except QueryError (List Filter)
  | [] => .ok []
  | node :: rest => do
    let part ← ofNode node
    let parts ← ofNodes rest
    return part :: parts

end

/-- The filter of a group. -/
def ofGroup [PatternLimit] (g : Group) : Except QueryError Filter :=
  ofNode (.group g.connective g.operands)

mutual

/-- Whether a record satisfies a filter. -/
def accepts (record : Record) : Filter → Except QueryError Bool
  | all parts => allAccept record parts
  | any parts => anyAccepts record parts
  | not part => do
    let accepted ← accepts record part
    return !accepted
  | leaf c pattern => c.acceptsWith pattern record

/-- Whether a record satisfies all filters, asked up to the first that it does
not satisfy. -/
def allAccept (record : Record) : List Filter → Except QueryError Bool
  | [] => .ok true
  | part :: rest => do
    if ← accepts record part then allAccept record rest else return false

/-- Whether a record satisfies any filter, asked up to the first that it
satisfies. -/
def anyAccepts (record : Record) : List Filter → Except QueryError Bool
  | [] => .ok false
  | part :: rest => do
    if ← accepts record part then return true else anyAccepts record rest

end

/-- The records that satisfy a filter, in order. -/
def select (filter : Filter) : List Record → Except QueryError (List Record)
  | [] => .ok []
  | record :: rest => do
    let accepted ← filter.accepts record
    let selected ← select filter rest
    return if accepted then record :: selected else selected

end Filter

/-- Whether a record satisfies a group of conditions. -/
def Group.accepts [PatternLimit] (g : Group) (record : Record) : Except QueryError Bool := do
  let filter ← Filter.ofGroup g
  filter.accepts record

end TableNotation
