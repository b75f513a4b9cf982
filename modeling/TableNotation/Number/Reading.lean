import TableNotation.Number.Basic
/-!
# Reading numbers

Number literals of the table format and of queries: an optional sign and
digits, with a point for doubles.

* `Number.readInteger?` reads an integer that fits a word;
* `Number.readFloat?` reads a double: digits on at least one side of a point,
  and perhaps an exponent;
* `Number.read?` reads both, a literal with a point being a double;
* `readCount?` reads a number of things.
-/

namespace TableNotation

/-- The natural number that decimal digits write. -/
def naturalOf (digits : List Char) : Nat := Nat.ofDigitChars 10 digits 0

/-- A sign in front of a text, and the text behind it. -/
def splitSign : List Char → Bool × List Char
  | '-' :: rest => (true, rest)
  | '+' :: rest => (false, rest)
  | rest => (false, rest)

/-- The natural number of an optional plus sign and digits, when it fits an unsigned
64-bit word. -/
def readCount? (s : List Char) : Option Nat :=
  let digits := match s with
    | '+' :: rest => rest
    | s => s
  if !digits.isEmpty && digits.all Char.isDigit && naturalOf digits < 2 ^ 64 then
    some (naturalOf digits)
  else none

namespace Decimal

/-- The decimal number `whole.fraction * 10 ^ exponent`.  Beyond the bound every
number is zero or infinite to a double, so a larger exponent is cut to it. -/
def ofParts (whole fraction : List Char) (exponent : Int) : Decimal :=
  let bound : Int := 400 + (whole.length + fraction.length)
  ⟨naturalOf (whole ++ fraction), max (-bound) (min bound exponent) - fraction.length⟩

/-- The value of an exponent mark, a sign and digits; nothing at all is the
exponent zero. -/
def readExponent? : List Char → Option Int
  | [] => some 0
  | mark :: rest =>
    let (negative, digits) := splitSign rest
    if (mark = 'e' ∨ mark = 'E') ∧ digits ≠ [] ∧ digits.all Char.isDigit then
      some (if negative then -(naturalOf digits : Int) else naturalOf digits)
    else none

end Decimal

namespace Number

/-- The integer of an optional sign and digits, when it fits a word. -/
def readInteger? (s : List Char) : Option Number :=
  let (negative, digits) := splitSign s
  if digits ≠ [] ∧ digits.all Char.isDigit then
    ofInt? (if negative then -(naturalOf digits : Int) else naturalOf digits)
  else none

/-- The double of an optional sign, digits around a point, and an optional
exponent; `none` also when it is beyond the largest double. -/
def readFloat? (s : List Char) : Option Number :=
  let (negative, rest) := splitSign s
  let whole := rest.takeWhile Char.isDigit
  match rest.dropWhile Char.isDigit with
  | '.' :: rest =>
    let fraction := rest.takeWhile Char.isDigit
    if whole = [] ∧ fraction = [] then none
    else do
      let exponent ← Decimal.readExponent? (rest.dropWhile Char.isDigit)
      let x ← (Decimal.ofParts whole fraction exponent).toDouble? negative
      return .float x
  | _ => none

/-- The number of a literal: a double when it has a point, else an integer. -/
def read? (s : List Char) : Option Number :=
  if '.' ∈ s then readFloat? s else readInteger? s

end Number
end TableNotation
