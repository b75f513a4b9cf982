import TableNotation.Proofs.Number.Rounding
/-!
# The order of numbers

Integers are ordered by their values, and an integer and a double by the nearest double.
Any two numbers are comparable and the order of a pair does not depend on the side, but the
order is not always transitive: a double can be the nearest one of two different integers, and
then it is equal to both of them.  This is the only way in which the order fails.

* `compare_self`, `compare_swap`: a number and itself, a pair from either side.
* `isLE_or_stands_between`: three numbers in order, or two integers and their nearest double.
-/

namespace TableNotation

/-- The double is the nearest one of two different integers. -/
def Double.StandsFor (x : Double) (m n : Int) : Prop :=
  m ≠ n ∧ unitsOfInt m = x.units ∧ unitsOfInt n = x.units

instance (x : Double) (m n : Int) : Decidable (x.StandsFor m n) :=
  inferInstanceAs (Decidable (_ ∧ _ ∧ _))

namespace Number

variable {a b c : Number}

theorem compare_self (a : Number) : a.compare a = .eq := by
  cases a <;> exact Std.compare_self

theorem compare_swap (a b : Number) : b.compare a = (a.compare b).swap := by
  cases a <;> cases b <;> exact (Int.compare_swap _ _).symm

/-- Numbers are equal if neither is greater than the other. -/
theorem compare_eq_iff :
    a.compare b = .eq ↔ (a.compare b).isLE = true ∧ (b.compare a).isLE = true := by
  rw [compare_swap a b]
  cases a.compare b <;> decide

/-- Numbers in order are rounded to doubles in order. -/
theorem units_le_of_isLE (h : (a.compare b).isLE = true) : a.units ≤ b.units := by
  cases a with
  | integer m _ =>
    cases b with
    | integer n _ => exact Double.unitsOfInt_le_unitsOfInt (Int.isLE_compare.1 h)
    | float y => exact Int.isLE_compare.1 h
  | float x => cases b <;> exact Int.isLE_compare.1 h

/-- Numbers that are rounded to different doubles are ordered as these. -/
theorem isLE_of_units_lt (h : a.units < b.units) : (a.compare b).isLE = true := by
  by_cases hle : (a.compare b).isLE = true
  · exact hle
  · have hba : (b.compare a).isLE = true := by
      rw [compare_swap a b]
      revert hle
      cases a.compare b <;> decide
    have hunits := units_le_of_isLE hba
    omega

/-- Unless both are integers, numbers are ordered as the doubles to which they are rounded. -/
theorem isLE_float_right {x : Double} :
    (a.compare (.float x)).isLE = true ↔ a.units ≤ x.units := by
  cases a <;> exact Int.isLE_compare

theorem isLE_float_left {x : Double} :
    ((Number.float x).compare a).isLE = true ↔ x.units ≤ a.units := by
  cases a <;> exact Int.isLE_compare

/-- Of three numbers in order the first is not greater than the last, unless both of them are
integers and the one between them is a double that stands for them both. -/
theorem isLE_or_stands_between (hab : (a.compare b).isLE = true)
    (hbc : (b.compare c).isLE = true) :
    (a.compare c).isLE = true ∨
      ∃ m n x hm hn, a = .integer m hm ∧ b = .float x ∧ c = .integer n hn ∧ x.StandsFor m n := by
  have hunits_ab := units_le_of_isLE hab
  have hunits_bc := units_le_of_isLE hbc
  by_cases hlt : a.units < c.units
  · exact .inl (isLE_of_units_lt hlt)
  have hac : a.units ≤ c.units := Int.le_trans hunits_ab hunits_bc
  cases a with
  | float x => exact .inl (isLE_float_left.2 hac)
  | integer m hm =>
    cases c with
    | float z => exact .inl (isLE_float_right.2 hac)
    | integer n hn =>
      cases b with
      | integer k hk =>
        have hmk := Int.isLE_compare.1 hab
        have hkn := Int.isLE_compare.1 hbc
        exact .inl (Int.isLE_compare.2 (Int.le_trans hmk hkn))
      | float y =>
        by_cases hmn : m ≤ n
        · exact .inl (Int.isLE_compare.2 hmn)
        · simp only [units] at hlt hunits_ab hunits_bc
          exact .inr ⟨m, n, y, hm, hn, rfl, rfl, rfl, by omega, by omega, by omega⟩

/-- A double that stands for two integers is equal to both of them. -/
theorem compare_eq_of_standsFor {x : Double} {m n : Int} (h : x.StandsFor m n) (hm : FitsWord m)
    (hn : FitsWord n) : (Number.integer m hm).compare (.float x) = .eq ∧
      (Number.float x).compare (.integer n hn) = .eq := by
  obtain ⟨_, hleft, hright⟩ := h
  rw [compare_eq_iff, compare_eq_iff, isLE_float_right, isLE_float_left, isLE_float_right,
    isLE_float_left]
  simp only [units]
  omega

end Number
end TableNotation
