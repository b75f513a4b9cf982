import TableNotation.Query.QueryError
import TableNotation.Value.Order
/-!
# Ordered records

Records are ordered by the values of one field.  A record without the field
counts as having the integer zero there, and null comes before all else.

* `Record.sort` is stable: records with values of one rank keep their order, in
  either direction.
* It fails when it meets two values without an order.
-/

namespace TableNotation

/-- The value by which a record is ordered. -/
def Record.sortKey (field : String) (record : Record) : Value :=
  (Fields.get? field record).getD (.number .zero)

/-- The order of two keys, if they have one: nulls are first. -/
def Value.keyOrder? : Value → Value → Option Ordering
  | .null, .null => some .eq
  | .null, _ => some .lt
  | _, .null => some .gt
  | a, b => a.compare? b

/-- An order in a direction. -/
def Direction.apply : Direction → Ordering → Ordering
  | ascending, order => order
  | descending, order => order.swap

namespace Record

/-- The order of two records. -/
def order (field : String) (direction : Direction) (a b : Record) : Except QueryError Ordering :=
  let left := sortKey field a
  let right := sortKey field b
  match Value.keyOrder? left right with
  | some order => .ok (direction.apply order)
  | none => .error (.unordered field left.kind right.kind)

/-- Puts a record among ordered ones, the last of which is the head of the list:
it goes behind all that it does not precede. -/
def insertSorted (field : String) (direction : Direction) (record : Record) :
    List Record → Except QueryError (List Record)
  | [] => .ok [record]
  | last :: before => do
    match ← order field direction record last with
    | .lt => do
      let inserted ← insertSorted field direction record before
      return last :: inserted
    | _ => return record :: last :: before

/-- The records in order, the last one first. -/
def sortOnto (field : String) (direction : Direction) :
    (sorted records : List Record) → Except QueryError (List Record)
  | sorted, [] => .ok sorted
  | sorted, record :: rest => do
    let sorted ← insertSorted field direction record sorted
    sortOnto field direction sorted rest

/-- The records ordered by a field. -/
def sort (field : String) (direction : Direction) (records : List Record) :
    Except QueryError (List Record) :=
  (sortOnto field direction [] records).map List.reverse

end Record
end TableNotation
