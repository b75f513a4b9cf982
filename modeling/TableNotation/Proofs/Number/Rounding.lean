import TableNotation.Number.Basic
/-!
# Integers among doubles

An integer is compared with a double by the double nearest to it.  Rounding keeps the order
of integers, but not always strictly: beyond `2 ^ 53` neighbouring integers can have one
nearest double.  Up to there every integer is a double itself.

* `nearestRatio`, `nearestMagnitude`: the magnitude of the double nearest to a quotient and to a
  number of units; `nearestRatio_le_nearestRatio`: rounding keeps the order of quotients.
* `exists_ofRatio?`: quotients up to `2 ^ 64`, words among them, have a nearest double.
* `unitsOfInt_le_unitsOfInt`: rounding keeps the order of integers.
* `unitsOfInt_eq_self`: integers up to `2 ^ 53` are not changed.
-/

namespace TableNotation.Double

/-- A larger number is not rounded to a smaller one. -/
theorem roundDiv_le_roundDiv {a b : Nat} (h : a ≤ b) (den : Nat) :
    roundDiv a den ≤ roundDiv b den := by
  have hfloor : a / den ≤ b / den := Nat.div_le_div_right h
  by_cases hlt : a / den < b / den
  · have ha := roundDiv_bounds a den
    have hb := roundDiv_bounds b den
    omega
  · have heq : a / den = b / den := by omega
    have hrest : a % den ≤ b % den := by
      have ha := Nat.div_add_mod a den
      have hb := Nat.div_add_mod b den
      rw [heq] at ha
      omega
    simp only [roundDiv, heq]
    grind

/-- The magnitude of the double nearest to a quotient of units. -/
def nearestRatio (n den : Nat) : Nat :=
  roundDiv n (den * 2 ^ scaleOf (n / den)) * 2 ^ scaleOf (n / den)

theorem roundRatio_magnitude (num den : Nat) :
    (roundRatio num den).1 * 2 ^ (roundRatio num den).2
      = nearestRatio (num * unitsPerOne) den := by
  simp only [roundRatio, nearestRatio]
  by_cases h : roundDiv (num * unitsPerOne) (den * 2 ^ scaleOf (num * unitsPerOne / den)) = 2 ^ 53
  · rw [if_pos h, h, ← Nat.pow_add, ← Nat.pow_add]
    exact congrArg (2 ^ ·) (by omega)
  · rw [if_neg h]

theorem scaleOf_le_scaleOf {m n : Nat} (h : m ≤ n) : scaleOf m ≤ scaleOf n := by
  by_cases hm : m = 0
  · subst hm
    exact Nat.zero_le _
  · have hlog : m.log2 ≤ n.log2 := by
      rw [Nat.le_log2 (by omega)]
      exact Nat.le_trans (Nat.log2_self_le hm) h
    simp only [scaleOf]
    omega

/-- Rounding keeps the order of quotients: below a larger scale everything is rounded to the
least magnitude of that scale at most. -/
theorem nearestRatio_le_nearestRatio {m n : Nat} (h : m ≤ n) (den : Nat) :
    nearestRatio m den ≤ nearestRatio n den := by
  have hscale : scaleOf (m / den) ≤ scaleOf (n / den) :=
    scaleOf_le_scaleOf (Nat.div_le_div_right h)
  by_cases heq : scaleOf (m / den) = scaleOf (n / den)
  · simp only [nearestRatio, heq]
    exact Nat.mul_le_mul_right _ (roundDiv_le_roundDiv h _)
  · have hupper : roundDiv m (den * 2 ^ scaleOf (m / den)) ≤ 2 ^ 53 := by
      have hfloor := div_two_pow_scaleOf_lt (m / den)
      have hround := roundDiv_bounds m (den * 2 ^ scaleOf (m / den))
      rw [← Nat.div_div_eq_div_mul] at hround
      omega
    have hlower : 2 ^ 52 ≤ roundDiv n (den * 2 ^ scaleOf (n / den)) := by
      have hfloor := le_div_two_pow_scaleOf (show scaleOf (n / den) ≠ 0 by omega)
      have hround := roundDiv_bounds n (den * 2 ^ scaleOf (n / den))
      rw [← Nat.div_div_eq_div_mul] at hround
      omega
    calc nearestRatio m den
        ≤ 2 ^ 53 * 2 ^ scaleOf (m / den) := Nat.mul_le_mul_right _ hupper
      _ = 2 ^ (53 + scaleOf (m / den)) := (Nat.pow_add ..).symm
      _ ≤ 2 ^ (52 + scaleOf (n / den)) := Nat.pow_le_pow_right (by decide) (by omega)
      _ = 2 ^ 52 * 2 ^ scaleOf (n / den) := Nat.pow_add ..
      _ ≤ nearestRatio n den := Nat.mul_le_mul_right _ hlower

/-- Quotients up to `2 ^ 64` are far below the largest double. -/
theorem scale_roundRatio_le {num den : Nat} (h : num ≤ den * 2 ^ 64) :
    (roundRatio num den).2 ≤ 2045 := by
  have hunits : unitsPerOne = 2 ^ binaryPlaces := by rw [unitsPerOne]
  have hfloor : num * unitsPerOne / den ≤ 2 ^ (64 + binaryPlaces) := by
    apply Nat.div_le_of_le_mul
    rw [Nat.pow_add, ← hunits, ← Nat.mul_assoc]
    exact Nat.mul_le_mul_right _ h
  have hscale := scaleOf_le_scaleOf hfloor
  rw [scaleOf.eq_def (2 ^ (64 + binaryPlaces)), Nat.log2_two_pow] at hscale
  have hplaces : binaryPlaces = 1074 := by rw [binaryPlaces]
  simp only [roundRatio]
  split <;> omega

theorem units_mk (negative : Bool) (mantissa scale : Nat) (h : IsCanonical mantissa scale) :
    units ⟨negative, mantissa, scale, h⟩
      = if negative = true then -((mantissa * 2 ^ scale : Nat) : Int)
        else ((mantissa * 2 ^ scale : Nat) : Int) := by
  rw [units, magnitude]

/-- Quotients up to `2 ^ 64` have a nearest double. -/
theorem exists_ofRatio? (negative : Bool) {num den : Nat} (h : num ≤ den * 2 ^ 64) :
    ∃ x, ofRatio? negative num den = some x ∧
      x.units = if negative = true then -(nearestRatio (num * unitsPerOne) den : Int)
        else nearestRatio (num * unitsPerOne) den := by
  refine ⟨_, dif_pos (scale_roundRatio_le h), ?_⟩
  rw [units_mk, roundRatio_magnitude]

/-- The magnitude of the double nearest to a number of units. -/
def nearestMagnitude (n : Nat) : Nat := roundDiv n (2 ^ scaleOf n) * 2 ^ scaleOf n

theorem nearestMagnitude_eq (n : Nat) : nearestMagnitude n = nearestRatio n 1 := by
  simp only [nearestMagnitude, nearestRatio, Nat.div_one, Nat.one_mul]

theorem nearestMagnitude_le_nearestMagnitude {m n : Nat} (h : m ≤ n) :
    nearestMagnitude m ≤ nearestMagnitude n := by
  rw [nearestMagnitude_eq, nearestMagnitude_eq]
  exact nearestRatio_le_nearestRatio h 1

/-- A multiple of its scale is not rounded. -/
theorem nearestMagnitude_eq_self {n : Nat} (h : 2 ^ scaleOf n ∣ n) : nearestMagnitude n = n := by
  obtain ⟨k, hk⟩ := h
  have hround : roundDiv n (2 ^ scaleOf n) = k := by
    have hself := roundDiv_mul_self k (Nat.two_pow_pos (scaleOf n))
    rwa [Nat.mul_comm, ← hk] at hself
  rw [nearestMagnitude, hround, Nat.mul_comm]
  exact hk.symm

/-- Up to `2 ^ 53` ones are a double. -/
theorem nearestMagnitude_mul_unitsPerOne {n : Nat} (h : n ≤ 2 ^ 53) :
    nearestMagnitude (n * unitsPerOne) = n * unitsPerOne := by
  apply nearestMagnitude_eq_self
  have hunits : n * unitsPerOne = n * 2 ^ binaryPlaces := by rw [unitsPerOne]
  rw [hunits]
  by_cases hzero : n = 0
  · rw [hzero, Nat.zero_mul]
    exact Nat.dvd_zero _
  have hpos : n * 2 ^ binaryPlaces ≠ 0 := Nat.ne_of_gt (Nat.mul_pos (by omega) (Nat.two_pow_pos _))
  by_cases hmax : n = 2 ^ 53
  · have hpower : n * 2 ^ binaryPlaces = 2 ^ (53 + binaryPlaces) := by rw [hmax, Nat.pow_add]
    rw [hpower, scaleOf, Nat.log2_two_pow]
    exact Nat.pow_dvd_pow 2 (by omega)
  · have hlog : (n * 2 ^ binaryPlaces).log2 < 53 + binaryPlaces := by
      rw [Nat.log2_lt hpos, Nat.pow_add]
      exact Nat.mul_lt_mul_of_pos_right (by omega) (Nat.two_pow_pos _)
    have hscale : scaleOf (n * 2 ^ binaryPlaces) ≤ binaryPlaces := by
      simp only [scaleOf]
      omega
    exact Nat.dvd_trans (Nat.pow_dvd_pow 2 hscale) (Nat.dvd_mul_left _ _)

theorem unitsOfInt_eq (n : Int) : unitsOfInt n
    = if n < 0 then -(nearestMagnitude (n.natAbs * unitsPerOne) : Int)
      else nearestMagnitude (n.natAbs * unitsPerOne) := by
  simp only [unitsOfInt, roundRatio_magnitude, nearestMagnitude_eq]

/-- Rounding keeps the order of integers. -/
theorem unitsOfInt_le_unitsOfInt {m n : Int} (h : m ≤ n) : unitsOfInt m ≤ unitsOfInt n := by
  rw [unitsOfInt_eq, unitsOfInt_eq]
  by_cases hm : m < 0
  · rw [if_pos hm]
    by_cases hn : n < 0
    · rw [if_pos hn]
      have hround := nearestMagnitude_le_nearestMagnitude
        (Nat.mul_le_mul_right unitsPerOne (show n.natAbs ≤ m.natAbs by omega))
      omega
    · rw [if_neg hn]
      omega
  · have hround := nearestMagnitude_le_nearestMagnitude
      (Nat.mul_le_mul_right unitsPerOne (show m.natAbs ≤ n.natAbs by omega))
    rw [if_neg hm, if_neg (by omega)]
    omega

/-- An integer up to `2 ^ 53` is a double. -/
theorem unitsOfInt_eq_self {n : Int} (h : n.natAbs ≤ 2 ^ 53) :
    unitsOfInt n = n * unitsPerOne := by
  rw [unitsOfInt_eq, nearestMagnitude_mul_unitsPerOne h]
  by_cases hn : n < 0
  · rw [if_pos hn, Int.natCast_mul, ← Int.neg_mul]
    congr 1
    omega
  · rw [if_neg hn, Int.natCast_mul]
    congr 1
    omega

/-- Integers up to `2 ^ 53` are told apart by their nearest doubles. -/
theorem eq_of_unitsOfInt_eq {m n : Int} (hm : m.natAbs ≤ 2 ^ 53) (hn : n.natAbs ≤ 2 ^ 53)
    (h : unitsOfInt m = unitsOfInt n) : m = n := by
  rw [unitsOfInt_eq_self hm, unitsOfInt_eq_self hn] at h
  have hpos : (unitsPerOne : Int) ≠ 0 := by
    have hunits := unitsPerOne_pos
    omega
  exact Int.eq_of_mul_eq_mul_right hpos h

end TableNotation.Double
