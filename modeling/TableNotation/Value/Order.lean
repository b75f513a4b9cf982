import TableNotation.Value.Basic
/-!
# Equality and order of values

Two relations compare values.

* `Value.same` is the equality of documents: numbers are the same if they are of
  one kind and have one value (so `1` is not `1.0`, but `0.0` is `-0.0`), and the
  order of the fields of an object does not matter.
* `Value.equal` and `Value.compare?` are the equality and the order of queries:
  numbers are compared by value, whatever their kind, texts by code points, and
  `false` comes before `true`.  Values of other or of different types have no
  order.
-/

namespace TableNotation.Value

mutual

/-- Whether two values are the same in a document. -/
def same : Value → Value → Bool
  | .null, .null => true
  | .bool a, .bool b => a == b
  | .number a, .number b => a.same b
  | .string a, .string b => a == b
  | .array as, .array bs => sameItems as bs
  | .object as, .object bs => as.length == bs.length && sameFields as bs
  | _, _ => false

/-- Whether two lists hold the same values in the same order. -/
def sameItems : List Value → List Value → Bool
  | [], [] => true
  | a :: as, b :: bs => a.same b && sameItems as bs
  | _, _ => false

/-- Whether each of the fields is among `others` with the same value. -/
def sameFields : List (String × Value) → List (String × Value) → Bool
  | [], _ => true
  | (k, v) :: rest, others =>
    (match Fields.get? k others with
      | some w => v.same w
      | none => false) && sameFields rest others

end

/-- Whether two values are equal in a query: numbers by value, all else as in a
document. -/
def equal : Value → Value → Bool
  | .number a, .number b => a.compare b == .eq
  | a, b => a.same b

/-- The order of two values, if they have one. -/
def compare? : Value → Value → Option Ordering
  | .number a, .number b => some (a.compare b)
  | .string a, .string b => some (compare a b)
  | .bool a, .bool b => some (compare a b)
  | _, _ => none

end TableNotation.Value
