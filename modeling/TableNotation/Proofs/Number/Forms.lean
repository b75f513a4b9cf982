import TableNotation.Proofs.Number.Ordering
/-!
# Forms of numbers

A number has up to three forms: a signed word, an unsigned word, and the nearest double.  Two
numbers can be compared in any form that both of them have, and the forms do not always agree:
words tell integers apart that have one nearest double.  The order of numbers is that of the first
form they have in common, where signed words come before unsigned ones, and doubles last.

* `exists_toDouble?`: every number has the last form.
* `Double.compare_unitsOfInt_of_signs`: integers on the two sides of zero, which may have no word
  in common, are ordered as their nearest doubles.
* `compareByForm?_eq`: the first common form gives the order of numbers.
-/

namespace TableNotation

namespace Double

/-- An integer that fits a word has a nearest double. -/
theorem exists_ofInt? {n : Int} (h : FitsWord n) :
    ∃ x, ofInt? n = some x ∧ x.units = unitsOfInt n := by
  have hword : n.natAbs ≤ 1 * 2 ^ 64 := by
    obtain ⟨hlow, hhigh⟩ := h
    omega
  obtain ⟨x, hx, hx_units⟩ := exists_ofRatio? (decide (n < 0)) hword
  refine ⟨x, hx, ?_⟩
  rw [hx_units, unitsOfInt_eq, nearestMagnitude_eq]
  simp only [decide_eq_true_eq]

/-- An integer below zero is rounded to less than one that is not. -/
theorem unitsOfInt_lt_of_signs {m n : Int} (hm : m < 0) (hn : 0 ≤ n) :
    unitsOfInt m < unitsOfInt n := by
  have hbelow : unitsOfInt m ≤ unitsOfInt (-1) := unitsOfInt_le_unitsOfInt (by omega)
  have habove : unitsOfInt 0 ≤ unitsOfInt n := unitsOfInt_le_unitsOfInt hn
  have hminus : unitsOfInt (-1) = (-1 : Int) * unitsPerOne := unitsOfInt_eq_self (by decide)
  have hzero : unitsOfInt 0 = (0 : Int) * unitsPerOne := unitsOfInt_eq_self (by decide)
  have hpos := unitsPerOne_pos
  omega

/-- Integers on the two sides of zero are ordered as their nearest doubles. -/
theorem compare_unitsOfInt_of_signs {m n : Int} (h : m < 0 ↔ 0 ≤ n) :
    Ord.compare (unitsOfInt m) (unitsOfInt n) = Ord.compare m n := by
  by_cases hm : m < 0
  · have hn := h.1 hm
    rw [Int.compare_eq_lt.2 (unitsOfInt_lt_of_signs hm hn)]
    exact (Int.compare_eq_lt.2 (by omega)).symm
  · have hn : n < 0 := by omega
    rw [Int.compare_eq_gt.2 (unitsOfInt_lt_of_signs hn (by omega))]
    exact (Int.compare_eq_gt.2 (by omega)).symm

end Double

namespace Number

/-! ### The forms -/

/-- The integer of a number, if it is in the range of words from `low` to below `high`. -/
def word? (low high : Int) : Number → Option Int
  | .integer n _ => if low ≤ n ∧ n < high then some n else none
  | .float _ => none

/-- The number as a signed word of 64 bits. -/
def signedWord? : Number → Option Int := word? (-2 ^ 63) (2 ^ 63)

/-- The number as an unsigned word of 64 bits. -/
def unsignedWord? : Number → Option Int := word? 0 (2 ^ 64)

/-- The order of two numbers in a form, if both of them have it. -/
def compareAs? {α : Type} (form : Number → Option α) (order : α → α → Ordering)
    (a b : Number) : Option Ordering := do
  return order (← form a) (← form b)

/-- The order of two numbers in the first form that both of them have. -/
def compareByForm? (a b : Number) : Option Ordering :=
  compareAs? signedWord? Ord.compare a b <|>
    compareAs? unsignedWord? Ord.compare a b <|> compareAs? toDouble? Double.compare a b

/-- Every number has a nearest double. -/
theorem exists_toDouble? (a : Number) : ∃ x, a.toDouble? = some x ∧ x.units = a.units := by
  cases a with
  | integer n fits => exact Double.exists_ofInt? fits
  | float x => exact ⟨x, rfl, rfl⟩

theorem compareAs?_toDouble? (a b : Number) :
    compareAs? toDouble? Double.compare a b = some (Ord.compare a.units b.units) := by
  obtain ⟨x, hx, hx_units⟩ := exists_toDouble? a
  obtain ⟨y, hy, hy_units⟩ := exists_toDouble? b
  rw [← hx_units, ← hy_units]
  simp only [compareAs?, hx, hy]
  rfl

theorem compareAs?_word? (low high : Int) {m n : Int} (hm : FitsWord m) (hn : FitsWord n) :
    compareAs? (word? low high) Ord.compare (.integer m hm) (.integer n hn)
      = if (low ≤ m ∧ m < high) ∧ low ≤ n ∧ n < high then some (Ord.compare m n) else none := by
  simp only [compareAs?, word?]
  by_cases hleft : low ≤ m ∧ m < high
  · by_cases hright : low ≤ n ∧ n < high <;> simp [hleft, hright]
  · simp [hleft]

/-- Doubles are no words. -/
theorem compareAs?_word?_eq_none (low high : Int) {a b : Number}
    (h : a.isInteger = false ∨ b.isInteger = false) :
    compareAs? (word? low high) Ord.compare a b = none := by
  cases a with
  | float x => rfl
  | integer m hm =>
    cases b with
    | float y => simp [compareAs?, word?]
    | integer n hn => simp [isInteger] at h

/-! ### The first common form -/

/-- Two integers are ordered as in the first form they have in common: if they are no words of one
kind, they lie on the two sides of zero. -/
theorem compareByForm?_integer {m n : Int} (hm : FitsWord m) (hn : FitsWord n) :
    compareByForm? (.integer m hm) (.integer n hn) = some (Ord.compare m n) := by
  rw [compareByForm?, signedWord?, unsignedWord?, compareAs?_word?, compareAs?_word?,
    compareAs?_toDouble?]
  by_cases hsigned : (-2 ^ 63 ≤ m ∧ m < 2 ^ 63) ∧ -2 ^ 63 ≤ n ∧ n < 2 ^ 63
  · rw [if_pos hsigned]
    rfl
  by_cases hunsigned : (0 ≤ m ∧ m < 2 ^ 64) ∧ 0 ≤ n ∧ n < 2 ^ 64
  · rw [if_neg hsigned, if_pos hunsigned]
    rfl
  · have hsigns : m < 0 ↔ 0 ≤ n := by
      obtain ⟨hm_low, hm_high⟩ := hm
      obtain ⟨hn_low, hn_high⟩ := hn
      omega
    rw [if_neg hsigned, if_neg hunsigned]
    exact congrArg some (Double.compare_unitsOfInt_of_signs hsigns)

/-- Any two numbers have a form in common, and their order is that of the first one. -/
theorem compareByForm?_eq (a b : Number) : a.compareByForm? b = some (a.compare b) := by
  by_cases hfloat : a.isInteger = false ∨ b.isInteger = false
  · have horder : a.compare b = Ord.compare a.units b.units := by
      cases a <;> cases b <;> simp_all [isInteger, compare]
    rw [compareByForm?, signedWord?, unsignedWord?, compareAs?_word?_eq_none _ _ hfloat,
      compareAs?_word?_eq_none _ _ hfloat, compareAs?_toDouble?, horder]
    rfl
  · obtain ⟨m, hm, n, hn, rfl, rfl⟩ :
        ∃ m hm n hn, a = .integer m hm ∧ b = .integer n hn := by
      cases a <;> cases b <;> simp_all [isInteger]
    exact compareByForm?_integer hm hn

end Number
end TableNotation
