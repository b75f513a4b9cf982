import TableNotation.Number.Decimal
/-!
# Numbers of documents

A number is an integer that fits a signed or an unsigned 64-bit word, or a
finite double.  The two are kept apart (`1` is not `1.0`), but they have one
order.

* `Number.same` tells numbers apart by kind and value, the two zeros of a double
  being the same;
* `Number.compare` orders all numbers: integers exactly, and an integer against
  a double by the double nearest to it.
-/

namespace TableNotation

/-- Whether an integer fits a signed or an unsigned 64-bit word. -/
def FitsWord (n : Int) : Prop := -2 ^ 63 ≤ n ∧ n < 2 ^ 64

instance (n : Int) : Decidable (FitsWord n) := inferInstanceAs (Decidable (_ ∧ _))

/-- A number of a document. -/
inductive Number where
  | integer (value : Int) (fits : FitsWord value)
  | float (value : Double)
  deriving DecidableEq

namespace Number

/-- The integer as a number, when it fits a word. -/
def ofInt? (n : Int) : Option Number :=
  if h : FitsWord n then some (.integer n h) else none

/-- The integer zero. -/
def zero : Number := .integer 0 (by decide)

/-- Whether the number is kept as an integer. -/
def isInteger : Number → Bool
  | .integer .. => true
  | .float _ => false

/-- The value in units of the smallest double, an integer being rounded to the
nearest double. -/
def units : Number → Int
  | .integer n _ => Double.unitsOfInt n
  | .float x => x.units

/-- The double nearest to a number. -/
def toDouble? : Number → Option Double
  | .integer n _ => Double.ofInt? n
  | .float x => some x

/-- The order of numbers. -/
def compare : Number → Number → Ordering
  | .integer m _, .integer n _ => Ord.compare m n
  | a, b => Ord.compare a.units b.units

/-- Whether two numbers are of one kind and have one value. -/
def same : Number → Number → Bool
  | .integer m _, .integer n _ => m == n
  | .float x, .float y => x.units == y.units
  | _, _ => false

/-- The decimal text of an integer. -/
def integerText (n : Int) : List Char :=
  (if n < 0 then ['-'] else []) ++ Decimal.digitsOf n.natAbs

/-- The text of a number, a double being written in a layout. -/
def text (layout : FloatLayout) : Number → List Char
  | .integer n _ => integerText n
  | .float x => x.text layout

end Number
end TableNotation
