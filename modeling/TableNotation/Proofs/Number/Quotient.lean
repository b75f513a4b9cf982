import TableNotation.Compression.Savings
import TableNotation.Proofs.Number.Rounding
/-!
# Shares as doubles

A share, the quotient of two counts, is rounded to the nearest double.  Rounding keeps the order
of shares, but could make different shares equal.  Shares of a hundred at most are too far from
three fifths for that: the double of such a share is greater than the double of three fifths if
and only if the share is greater.  Shares of one and the same total are too far from each other,
unless the total is very large.

* `units_quotient`, `units_quotient_le_unitsPerOne`: the double of a share, which is one at most.
* `units_quotient_le`: rounding keeps the order of shares.
* `compare_three_fifths_iff`: shares of a hundred at most against three fifths.
* `quotient_left_inj`: shares of one total are told apart.
-/

namespace TableNotation.Double

/-- The scale of a share is at most that of one. -/
theorem scaleOf_share_le {num den : Nat} (h : num ≤ den) :
    scaleOf (num * unitsPerOne / den) ≤ binaryPlaces - 52 := by
  have hfloor : num * unitsPerOne / den ≤ 2 ^ binaryPlaces := by
    have hunits : unitsPerOne = 2 ^ binaryPlaces := by rw [unitsPerOne]
    rw [← hunits]
    exact Nat.div_le_of_le_mul (Nat.mul_le_mul_right _ h)
  have hle := scaleOf_le_scaleOf hfloor
  rwa [scaleOf.eq_def (2 ^ binaryPlaces), Nat.log2_two_pow] at hle

theorem units_quotient {num den : Nat} (hpos : 0 < den) (h : num ≤ den) :
    (quotient num den).units = (nearestRatio (num * unitsPerOne) den : Int) := by
  obtain ⟨x, hx, hx_units⟩ := exists_ofRatio? false
    (Nat.le_trans h (Nat.le_mul_of_pos_right den (Nat.two_pow_pos 64)))
  rw [quotient, if_neg (Nat.ne_of_gt hpos), hx, Option.getD_some, hx_units,
    if_neg Bool.false_ne_true]

/-- No part of a total is the share zero. -/
theorem quotient_zero (den : Nat) : quotient 0 den = .zero false := by
  by_cases hden : den = 0
  · rw [quotient, if_pos hden]
  · have hround : roundRatio 0 den = (0, 0) := by
      have hscale : scaleOf (0 * unitsPerOne / den) = 0 := by
        rw [Nat.zero_mul, Nat.zero_div]
        rfl
      have hmantissa : roundDiv (0 * unitsPerOne) (den * 2 ^ 0) = 0 := by
        rw [Nat.zero_mul, roundDiv, Nat.zero_div, Nat.zero_mod, if_pos (by omega)]
      simp only [roundRatio, hscale, hmantissa]
      rfl
    rw [quotient, if_neg hden, ofRatio?]
    simp only [hround, Nat.zero_le, dif_pos, Option.getD_some]
    rfl

/-- A quotient of counts is not negative. -/
theorem units_quotient_nonneg (num den : Nat) : 0 ≤ (quotient num den).units := by
  have hsign : (quotient num den).negative = false := by
    unfold quotient ofRatio?
    split
    · rfl
    · split <;> rfl
  rw [units, hsign, if_neg Bool.false_ne_true]
  exact Int.natCast_nonneg _

/-- A share is one at most. -/
theorem units_quotient_le_unitsPerOne {num den : Nat} (h : num ≤ den) :
    (quotient num den).units ≤ unitsPerOne := by
  by_cases hden : den = 0
  · rw [quotient, if_pos hden]
    exact Int.natCast_nonneg _
  · have hround : nearestRatio (num * unitsPerOne) den ≤ unitsPerOne :=
      calc nearestRatio (num * unitsPerOne) den
          ≤ nearestRatio (den * unitsPerOne) den :=
            nearestRatio_le_nearestRatio (Nat.mul_le_mul_right _ h) _
        _ = nearestRatio (1 * unitsPerOne) 1 := by
            have hcancel := roundRatio_mul_mul 1 1 (Nat.pos_of_ne_zero hden)
            rw [← roundRatio_magnitude, ← roundRatio_magnitude, ← hcancel, Nat.one_mul]
        _ = unitsPerOne := by
            rw [← nearestMagnitude_eq, nearestMagnitude_mul_unitsPerOne (by decide), Nat.one_mul]
    rw [units_quotient (Nat.pos_of_ne_zero hden) h]
    exact_mod_cast hround

/-- Rounding keeps the order of shares. -/
theorem units_quotient_le {a b c d : Nat} (hb : 0 < b) (hab : a ≤ b) (hd : 0 < d) (hcd : c ≤ d)
    (h : a * d ≤ c * b) : (quotient a b).units ≤ (quotient c d).units := by
  rw [units_quotient hb hab, units_quotient hd hcd]
  have hle : nearestRatio (a * unitsPerOne) b ≤ nearestRatio (c * unitsPerOne) d :=
    calc nearestRatio (a * unitsPerOne) b
        = nearestRatio (a * d * unitsPerOne) (b * d) := by
          rw [← roundRatio_magnitude, ← roundRatio_magnitude, roundRatio_mul_mul a b hd]
      _ ≤ nearestRatio (c * b * unitsPerOne) (b * d) :=
          nearestRatio_le_nearestRatio (Nat.mul_le_mul_right _ h) _
      _ = nearestRatio (c * unitsPerOne) d := by
          rw [Nat.mul_comm b d, ← roundRatio_magnitude, ← roundRatio_magnitude,
            roundRatio_mul_mul c d hb]
  exact_mod_cast hle

/-- A share of a hundred at most is more than three fifths if its double is more than that of
three fifths.  For then it is at least `301 / 500`, the double of which is. -/
theorem compare_three_fifths_iff {votes total : Nat} (hpos : 0 < total) (htotal : total ≤ 100)
    (hvotes : votes ≤ total) :
    (quotient 3 5).compare (quotient votes total) = .lt ↔ 3 * total < 5 * votes := by
  rw [compare, Int.compare_eq_lt]
  constructor
  · intro hlt
    apply Nat.lt_of_not_le
    intro hle
    have hround := units_quotient_le hpos hvotes (by decide : 0 < 5) (by decide : 3 ≤ 5)
      (by omega : votes * 5 ≤ 3 * total)
    omega
  · intro hlt
    have hgap : (quotient 3 5).units < (quotient 301 500).units := by decide +kernel
    have hround := units_quotient_le (by decide : 0 < 500) (by decide : 301 ≤ 500) hpos hvotes
      (by omega : 301 * total ≤ votes * 500)
    omega

/-- Rounding moves a quotient by half a step of its scale at most. -/
theorem nearestRatio_bounds (n : Nat) {den : Nat} (hden : 0 < den) :
    2 * (nearestRatio n den * den) ≤ 2 * n + den * 2 ^ scaleOf (n / den) ∧
      2 * n ≤ 2 * (nearestRatio n den * den) + den * 2 ^ scaleOf (n / den) := by
  have hstep : 0 < den * 2 ^ scaleOf (n / den) := Nat.mul_pos hden (Nat.two_pow_pos _)
  have hnearest : nearestRatio n den * den = roundDiv n (den * 2 ^ scaleOf (n / den))
      * (den * 2 ^ scaleOf (n / den)) := by
    rw [nearestRatio, Nat.mul_assoc, Nat.mul_comm (2 ^ scaleOf (n / den)) den]
  rw [hnearest]
  generalize den * 2 ^ scaleOf (n / den) = step at hstep
  have hdivision := Nat.div_add_mod n step
  have hrest := Nat.mod_lt n hstep
  have hnext : (n / step + 1) * step = step * (n / step) + step := by
    rw [Nat.add_mul, Nat.one_mul, Nat.mul_comm]
  have hfloor : n / step * step = step * (n / step) := Nat.mul_comm _ _
  simp only [roundDiv]
  by_cases hlow : 2 * (n % step) < step
  · rw [if_pos hlow, hfloor]
    omega
  by_cases hhigh : step < 2 * (n % step)
  · rw [if_neg hlow, if_pos hhigh, hnext]
    omega
  by_cases heven : n / step % 2 = 0
  · rw [if_neg hlow, if_neg hhigh, if_pos heven, hfloor]
    omega
  · rw [if_neg hlow, if_neg hhigh, if_neg heven, hnext]
    omega

/-- A larger part of a total is a larger share, unless the total is very large: the next share is
more than a step of the scale of one away. -/
theorem units_quotient_lt {a b den : Nat} (hden : den < 2 ^ 52) (hab : a < b) (hb : b ≤ den) :
    (quotient a den).units < (quotient b den).units := by
  have hpos : 0 < den := by omega
  rw [units_quotient hpos (by omega : a ≤ den), units_quotient hpos hb]
  have hlow := (nearestRatio_bounds (a * unitsPerOne) hpos).1
  have hhigh := (nearestRatio_bounds (b * unitsPerOne) hpos).2
  have hstep : ∀ c, c ≤ den → den * 2 ^ scaleOf (c * unitsPerOne / den) < unitsPerOne := by
    intro c hc
    have hplaces : 52 ≤ binaryPlaces := by
      unfold binaryPlaces
      decide
    calc den * 2 ^ scaleOf (c * unitsPerOne / den)
        ≤ den * 2 ^ (binaryPlaces - 52) :=
          Nat.mul_le_mul_left _ (Nat.pow_le_pow_right (by decide) (scaleOf_share_le hc))
      _ < 2 ^ 52 * 2 ^ (binaryPlaces - 52) :=
          Nat.mul_lt_mul_of_pos_right hden (Nat.two_pow_pos _)
      _ = unitsPerOne := by
          rw [← Nat.pow_add, Nat.add_sub_cancel' hplaces, unitsPerOne]
  have hsteps := hstep a (by omega)
  have hsteps' := hstep b hb
  have hnext : a * unitsPerOne + unitsPerOne ≤ b * unitsPerOne := by
    rw [← Nat.succ_mul]
    exact Nat.mul_le_mul_right _ hab
  have hlt : nearestRatio (a * unitsPerOne) den * den < nearestRatio (b * unitsPerOne) den * den := by
    omega
  exact_mod_cast Nat.lt_of_mul_lt_mul_right hlt

/-- Shares of one total are told apart, unless the total is very large. -/
theorem quotient_left_inj {a b den : Nat} (hden : den < 2 ^ 52) (ha : a ≤ den) (hb : b ≤ den) :
    quotient a den = quotient b den ↔ a = b := by
  constructor
  · intro h
    rcases Nat.lt_trichotomy a b with hlt | heq | hgt
    · have hunits := units_quotient_lt hden hlt hb
      rw [h] at hunits
      exact absurd hunits (Int.lt_irrefl _)
    · exact heq
    · have hunits := units_quotient_lt hden hgt ha
      rw [h] at hunits
      exact absurd hunits (Int.lt_irrefl _)
  · intro h
    rw [h]

end TableNotation.Double
