import TableNotation.Compression.Frequent
/-!
# Estimated savings

How much of a document an algorithm would save, as a fraction.

* `Savings.ofDictionary`: the characters that references save, of all
  characters in leaves;
* `Savings.ofDeltas`: the members of smooth number sequences that would be
  written as differences, of all members of such sequences.  A sequence is
  smooth if its steps are on average less than half its magnitudes.
-/

namespace TableNotation

/-- The double nearest to the quotient of two counts; zero if there is nothing to
divide by. -/
def Double.quotient (num den : Nat) : Double :=
  if den = 0 then .zero false else (Double.ofRatio? false num den).getD (.zero false)

namespace Savings

/-- The sum of numbers. -/
def total (counts : List Nat) : Nat := counts.foldr (· + ·) 0

/-- The fraction of characters that a dictionary saves: each occurrence of a text
that is long and frequent enough, but the first, shrinks to three characters. -/
def ofDictionary (t : Thresholds) (document : Document) : Double :=
  let strings := document.strings
  let distinct := strings.eraseDups.map fun s => (s.length, strings.count s, s)
  let all := total (distinct.map fun (length, count, _) => length * count)
  let saved := total <|
    (distinct.filter fun (_, count, s) => t.admits s count).map fun (length, count, _) =>
      (length - 3) * (count - 1)
  Double.quotient saved all

/-- The numbers of a list that holds numbers only. -/
def numbers? : Value → Option (List Number)
  | .array items => items.mapM fun
    | .number n => some n
    | _ => none
  | _ => none

mutual

/-- The lists of numbers that are fields of objects in a value. -/
def sequences : Value → List (List Number)
  | .array items => itemSequences items
  | .object fields => fieldSequences fields
  | _ => []

/-- The lists of numbers that are fields of objects in a list of values. -/
def itemSequences : List Value → List (List Number)
  | [] => []
  | v :: rest => sequences v ++ itemSequences rest

/-- The lists of numbers that are fields, or fields of objects inside them. -/
def fieldSequences : List (String × Value) → List (List Number)
  | [] => []
  | (_, v) :: rest =>
    (match numbers? v with
      | some numbers => [numbers]
      | none => sequences v) ++ fieldSequences rest

end

/-- The differences between neighbours, without their signs. -/
def steps : List Double → List (Option Double)
  | x :: y :: rest => (y.sub? x).map Double.abs :: steps (y :: rest)
  | _ => []

/-- The average of magnitudes, each operation being rounded; `none` is an
infinite average. -/
def average? (magnitudes : List (Option Double)) : Option Double := do
  let sum ← magnitudes.foldlM (fun (sum : Double) x => x.bind sum.add?) (Double.zero false)
  sum.divNat? magnitudes.length

/-- Whether the steps of a sequence are small against its members. -/
def isSmooth (numbers : List Double) : Bool :=
  let half := (average? (numbers.map fun x => some x.abs)).bind fun x => x.divNat? 2
  match average? (steps numbers), half with
  | none, _ => false
  | some _, none => true
  | some step, some half => step.compare half == .lt

/-- The fraction of members of smooth sequences that become differences. -/
def ofDeltas (document : Document) : Double :=
  let smooth := (fieldSequences document).filter fun numbers =>
    2 ≤ numbers.length && isSmooth (numbers.filterMap Number.toDouble?)
  Double.quotient (total (smooth.map fun numbers => numbers.length - 1))
    (total (smooth.map List.length))

end Savings
end TableNotation
