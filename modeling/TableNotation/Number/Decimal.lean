import TableNotation.Number.Double
/-!
# Decimal numbers

A decimal number is a natural number of digits and a power of ten.

* `Decimal.toDouble?` is the nearest double, and `Double.shortest` the decimal
  with the fewest digits that reads back to a double, the nearest one if there
  are several, and of two at one distance that which a `Tie` says;
  `toDouble?_shortest` says that it does read back.
* `Decimal.text` writes a decimal with a point, positionally or with an
  exponent, as a `FloatLayout` says.
-/

namespace TableNotation

/-- The number `digits * 10 ^ exponent`. -/
structure Decimal where
  digits : Nat
  exponent : Int
  deriving DecidableEq

namespace Decimal

/-- The double of a sign nearest to a decimal number. -/
def toDouble? (negative : Bool) (d : Decimal) : Option Double :=
  if 0 ≤ d.exponent then Double.ofRatio? negative (d.digits * 10 ^ d.exponent.toNat) 1
  else Double.ofRatio? negative d.digits (10 ^ (-d.exponent).toNat)

/-- The same number without zeros at the end of its digits. -/
def reduced (d : Decimal) : Decimal :=
  if h : d.digits = 0 then ⟨0, 0⟩
  else if d.digits % 10 = 0 then reduced ⟨d.digits / 10, d.exponent + 1⟩
  else d
termination_by d.digits
decreasing_by omega

/-- The decimal digits of a natural number. -/
def digitsOf (n : Nat) : List Char := Nat.toDigits 10 n

/-- The power of ten of the first digit. -/
def leadingExponent (d : Decimal) : Int :=
  (digitsOf d.digits).length - 1 + d.exponent

end Decimal

/-- Which of two neighbours a number halfway between them goes to. -/
inductive Tie where
  | toEven
  | up
  deriving DecidableEq

/-- Whether the quotient of two numbers is nearer to the natural number above it than
to the one below. -/
def Tie.goesUp (tie : Tie) (num den : Nat) : Bool :=
  match compare (2 * (num % den)) den with
  | .lt => false
  | .gt => true
  | .eq => tie = .up || num / den % 2 = 1

/-- The natural numbers below and above the quotient of two numbers, the nearer one
first. -/
def Tie.neighbours (tie : Tie) (num den : Nat) : List Nat :=
  let low := num / den
  if tie.goesUp num den then [low + 1, low] else [low, low + 1]

namespace Double

/-- The largest power of ten that is not above a positive double. -/
def leadingExponent (x : Double) : Int :=
  let guess : Int :=
    (Decimal.digitsOf x.magnitude).length - (Decimal.digitsOf unitsPerOne).length
  let reached :=
    if 0 ≤ guess then unitsPerOne * 10 ^ guess.toNat ≤ x.magnitude
    else unitsPerOne ≤ x.magnitude * 10 ^ (-guess).toNat
  if reached then guess else guess - 1

/-- A multiple of a power of ten that reads back to `x`: of the two neighbours of `x`
the nearer one, if it does, and else the other. -/
def decimalAt? (tie : Tie) (x : Double) (exponent : Int) : Option Decimal :=
  let (num, den) :=
    if 0 ≤ exponent then (x.magnitude, unitsPerOne * 10 ^ exponent.toNat)
    else (x.magnitude * 10 ^ (-exponent).toNat, unitsPerOne)
  ((tie.neighbours num den).map fun digits => (Decimal.mk digits exponent).reduced).find? fun d =>
    d.toDouble? x.negative = some x

/-- The value of a double, exactly. -/
def exactDecimal (x : Double) : Decimal :=
  ⟨x.magnitude * 5 ^ binaryPlaces, -(binaryPlaces : Int)⟩

/-- The shortest decimal that reads back to the double; seventeen digits always
suffice. -/
def shortest (tie : Tie) (x : Double) : Decimal :=
  let leading := x.leadingExponent
  ((List.range 17).findSome? fun places : Nat => decimalAt? tie x (leading - places)).getD
    x.exactDecimal

private theorem toDouble?_exactDecimal (x : Double) :
    x.exactDecimal.toDouble? x.negative = some x := by
  have hpow : (10 : Nat) ^ binaryPlaces = unitsPerOne * 5 ^ binaryPlaces := by
    unfold unitsPerOne
    rw [← Nat.mul_pow]
  have hneg : ¬ (0 : Int) ≤ -(binaryPlaces : Int) := by
    unfold binaryPlaces
    decide
  have hcast : (- -(binaryPlaces : Int)).toNat = binaryPlaces := by omega
  simp only [exactDecimal, Decimal.toDouble?, if_neg hneg, hcast, hpow]
  rw [ofRatio?_mul_mul _ _ _ (Nat.pow_pos (by decide)), ofRatio?_magnitude]

private theorem toDouble?_of_decimalAt? {tie : Tie} {x : Double} {exponent : Int} {d : Decimal}
    (h : decimalAt? tie x exponent = some d) : d.toDouble? x.negative = some x := by
  simp only [decimalAt?] at h
  have := List.find?_some h
  exact of_decide_eq_true this

/-- The shortest decimal of a double reads back to it. -/
theorem toDouble?_shortest (tie : Tie) (x : Double) :
    (x.shortest tie).toDouble? x.negative = some x := by
  simp only [shortest]
  cases h : (List.range 17).findSome? fun places : Nat =>
      decimalAt? tie x (x.leadingExponent - places) with
  | none => exact toDouble?_exactDecimal x
  | some d =>
    obtain ⟨_, places, _, _, hp, _⟩ := List.findSome?_eq_some_iff.1 h
    exact toDouble?_of_decimalAt? hp

end Double

/-- How a text form writes doubles. -/
structure FloatLayout where
  /-- Which numbers are written positionally, by the power of ten of their first
  digit; the others are written with an exponent. -/
  positional : Int → Bool
  /-- The choice between two shortest decimals at one distance. -/
  tie : Tie

namespace Decimal

/-- The number written out with a point and at least one digit on each side of
it. -/
def positionalText (d : Decimal) : List Char :=
  if 0 ≤ d.exponent then
    digitsOf d.digits ++ List.replicate d.exponent.toNat '0' ++ ['.', '0']
  else
    let places := (-d.exponent).toNat
    let digits := digitsOf d.digits
    let padded := List.replicate (places + 1 - digits.length) '0' ++ digits
    padded.take (padded.length - places) ++ '.' :: padded.drop (padded.length - places)

/-- The number with one digit before the point, which is left out behind a
single digit, and a signed exponent. -/
def exponentText (d : Decimal) : List Char :=
  let mantissa := match digitsOf d.digits with
    | first :: second :: rest => first :: '.' :: second :: rest
    | short => short
  let e := d.leadingExponent
  mantissa ++ 'e' :: (if e < 0 then '-' else '+') :: digitsOf e.natAbs

/-- The text of a decimal in a layout. -/
def text (layout : FloatLayout) (d : Decimal) : List Char :=
  if layout.positional d.leadingExponent then d.positionalText else d.exponentText

end Decimal

namespace Double

/-- The text of a double in a layout: its sign and its shortest decimal. -/
def text (layout : FloatLayout) (x : Double) : List Char :=
  (if x.negative then ['-'] else []) ++ (x.shortest layout.tie).text layout

/-- The text of a double with a fixed number of decimal places, a half going to
the even neighbour.  A negative number keeps its sign when it becomes zero. -/
def fixedText (places : Nat) (x : Double) : List Char :=
  let scaled := roundDiv (x.magnitude * 10 ^ places) unitsPerOne
  let digits := Decimal.digitsOf scaled
  let padded := List.replicate (places + 1 - digits.length) '0' ++ digits
  let whole := padded.take (padded.length - places)
  (if x.negative then ['-'] else []) ++
    (if places = 0 then whole else whole ++ '.' :: padded.drop (padded.length - places))

end Double
end TableNotation
