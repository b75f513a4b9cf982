/-!
# Finite binary64 numbers

A double is a sign and a magnitude `mantissa * 2 ^ scale`, measured in units of
`2 ^ -1074`, the smallest positive double.  The pair is canonical, so equal
doubles have equal bits: the two zeros differ, and every other number has one
form.

Exact quotients of natural numbers are rounded to the nearest double, a half
going to the even neighbour.  All arithmetic is on natural numbers; an overflow
is `none`.

* `Double.ofRatio?` rounds a quotient; `ofRatio?_magnitude` says that a quotient
  which is a double is not changed, and `ofRatio?_mul_mul` that only the value
  of the quotient matters.
* `Double.units` is the signed magnitude, by which doubles are ordered.
-/

namespace TableNotation

/-- Powers are those of the core library, whatever other powers are imported. -/
@[default_instance 20000]
instance (priority := 2000) instCorePow {α : Type} [NatPow α] : Pow α Nat := instPowNat

/-- `mantissa * 2 ^ scale` is a canonical magnitude: 53 bits at most, the
largest exponent not exceeded, and no smaller scale possible. -/
def IsCanonical (mantissa scale : Nat) : Prop :=
  mantissa < 2 ^ 53 ∧ scale ≤ 2045 ∧ (2 ^ 52 ≤ mantissa ∨ scale = 0)

instance (mantissa scale : Nat) : Decidable (IsCanonical mantissa scale) :=
  inferInstanceAs (Decidable (_ ∧ _ ∧ _))

/-- A finite binary64 number: `± mantissa * 2 ^ scale` units of `2 ^ -1074`. -/
structure Double where
  negative : Bool
  mantissa : Nat
  scale : Nat
  canonical : IsCanonical mantissa scale
  deriving DecidableEq

namespace Double

/-- The number of binary places that doubles have behind the point. -/
@[irreducible] def binaryPlaces : Nat := 1074

/-- One over the smallest positive double. -/
@[irreducible] def unitsPerOne : Nat := 2 ^ binaryPlaces

theorem unitsPerOne_pos : 0 < unitsPerOne := by
  unfold unitsPerOne
  exact Nat.two_pow_pos _

/-- The distance from zero, in units. -/
def magnitude (x : Double) : Nat := x.mantissa * 2 ^ x.scale

/-- The value in units, by which doubles are ordered; the two zeros agree. -/
def units (x : Double) : Int := if x.negative then -(x.magnitude : Int) else x.magnitude

/-- The order of values, in which the two zeros are equal. -/
def compare (x y : Double) : Ordering := Ord.compare x.units y.units

/-- The zero of a sign. -/
def zero (negative : Bool) : Double := ⟨negative, 0, 0, by decide⟩

instance : Inhabited Double := ⟨zero false⟩

/-- The natural number nearest to a quotient, a half going to the even
neighbour. -/
def roundDiv (num den : Nat) : Nat :=
  let floor := num / den
  let rest := num % den
  if 2 * rest < den then floor
  else if den < 2 * rest then floor + 1
  else if floor % 2 = 0 then floor
  else floor + 1

/-- The scale at which a magnitude of `floor` units or a little more keeps 53
bits: the excess of its length over 53. -/
def scaleOf (floor : Nat) : Nat := floor.log2 - 52

/-- The mantissa and scale nearest to `num / den` ones.  A mantissa that rounds
up to 54 bits moves to the next scale. -/
def roundRatio (num den : Nat) : Nat × Nat :=
  let n := num * unitsPerOne
  let scale := scaleOf (n / den)
  let mantissa := roundDiv n (den * 2 ^ scale)
  if mantissa = 2 ^ 53 then (2 ^ 52, scale + 1) else (mantissa, scale)

theorem roundDiv_bounds (num den : Nat) :
    num / den ≤ roundDiv num den ∧ roundDiv num den ≤ num / den + 1 := by
  simp only [roundDiv]
  split
  · omega
  · split
    · omega
    · split <;> omega

theorem div_two_pow_scaleOf_lt (n : Nat) : n / 2 ^ scaleOf n < 2 ^ 53 := by
  rw [Nat.div_lt_iff_lt_mul (Nat.two_pow_pos _), ← Nat.pow_add]
  refine Nat.lt_of_lt_of_le Nat.lt_log2_self (Nat.pow_le_pow_right (by decide) ?_)
  simp only [scaleOf]; omega

theorem le_div_two_pow_scaleOf {n : Nat} (h : scaleOf n ≠ 0) : 2 ^ 52 ≤ n / 2 ^ scaleOf n := by
  have hlog : 52 ≤ n.log2 := by simp only [scaleOf] at h; omega
  have hn : n ≠ 0 := by
    rintro rfl
    exact absurd hlog (by decide)
  rw [Nat.le_div_iff_mul_le (Nat.two_pow_pos _), ← Nat.pow_add]
  refine Nat.le_trans (Nat.pow_le_pow_right (by decide) ?_) (Nat.log2_self_le hn)
  simp only [scaleOf]; omega

/-- Rounding yields a canonical magnitude unless the scale is too large. -/
theorem roundRatio_canonical (num den : Nat) (h : (roundRatio num den).2 ≤ 2045) :
    IsCanonical (roundRatio num den).1 (roundRatio num den).2 := by
  have hb := roundDiv_bounds (num * unitsPerOne)
    (den * 2 ^ scaleOf (num * unitsPerOne / den))
  rw [← Nat.div_div_eq_div_mul] at hb
  have hlt := div_two_pow_scaleOf_lt (num * unitsPerOne / den)
  have hle := @le_div_two_pow_scaleOf (num * unitsPerOne / den)
  simp only [roundRatio] at h ⊢
  split
  · rename_i heq
    rw [if_pos heq] at h
    exact ⟨Nat.pow_lt_pow_right (by decide) (by decide), h, .inl (Nat.le_refl _)⟩
  · rename_i hne
    rw [if_neg hne] at h
    refine ⟨by omega, h, ?_⟩
    by_cases hz : scaleOf (num * unitsPerOne / den) = 0
    · exact .inr hz
    · exact .inl (Nat.le_trans (hle hz) hb.1)

/-- The double of a sign nearest to `num / den`, a half going to the even
mantissa; `none` when it lies beyond the largest double. -/
def ofRatio? (negative : Bool) (num den : Nat) : Option Double :=
  if h : (roundRatio num den).2 ≤ 2045 then
    some ⟨negative, (roundRatio num den).1, (roundRatio num den).2, roundRatio_canonical num den h⟩
  else none

theorem roundRatio_mul_mul (num den : Nat) {k : Nat} (h : 0 < k) :
    roundRatio (num * k) (den * k) = roundRatio num den := by
  have h1 : num * k * unitsPerOne = num * unitsPerOne * k := by ac_rfl
  have h2 : num * k * unitsPerOne / (den * k) = num * unitsPerOne / den := by
    rw [h1, Nat.mul_div_mul_right _ _ h]
  have h3 : ∀ d, roundDiv (num * k * unitsPerOne) (d * k) = roundDiv (num * unitsPerOne) d := by
    intro d
    simp only [roundDiv, h1, Nat.mul_div_mul_right _ _ h, Nat.mul_mod_mul_right]
    rw [show 2 * (num * unitsPerOne % d * k) = 2 * (num * unitsPerOne % d) * k by ac_rfl]
    simp only [Nat.mul_lt_mul_right h]
  have h4 : ∀ e, roundDiv (num * k * unitsPerOne) (den * k * e)
      = roundDiv (num * unitsPerOne) (den * e) := by
    intro e
    rw [show den * k * e = den * e * k by ac_rfl]
    exact h3 _
  simp only [roundRatio, h2, h4]

/-- Only the value of the quotient matters. -/
theorem ofRatio?_mul_mul (negative : Bool) (num den : Nat) {k : Nat} (h : 0 < k) :
    ofRatio? negative (num * k) (den * k) = ofRatio? negative num den := by
  simp only [ofRatio?, roundRatio_mul_mul num den h]

theorem scaleOf_magnitude (x : Double) : scaleOf x.magnitude = x.scale := by
  obtain ⟨_, m, e, hm, _, hme⟩ := x
  simp only [magnitude, scaleOf]
  by_cases he : e = 0
  · subst he
    by_cases hz : m = 0
    · subst hz; rfl
    · have : m.log2 < 53 := (Nat.log2_lt hz).2 hm
      simp; omega
  · have hlow : 2 ^ 52 ≤ m := hme.resolve_right he
    have hz : m * 2 ^ e ≠ 0 :=
      Nat.ne_of_gt (Nat.mul_pos (by omega) (Nat.two_pow_pos _))
    have h1 : (m * 2 ^ e).log2 < 53 + e := by
      rw [Nat.log2_lt hz, Nat.pow_add]
      exact Nat.mul_lt_mul_of_pos_right hm (Nat.two_pow_pos _)
    have h2 : ¬ (m * 2 ^ e).log2 < 52 + e := by
      rw [Nat.log2_lt hz, Nat.pow_add, Nat.not_lt]
      exact Nat.mul_le_mul_right _ hlow
    omega

theorem roundDiv_mul_self (m : Nat) {k : Nat} (h : 0 < k) : roundDiv (m * k) k = m := by
  simp only [roundDiv, Nat.mul_div_cancel _ h, Nat.mul_mod_left]
  rw [if_pos (by omega)]

/-- A quotient that is the value of a double is rounded to that double. -/
theorem ofRatio?_magnitude (x : Double) :
    ofRatio? x.negative x.magnitude unitsPerOne = some x := by
  have hpos : 0 < unitsPerOne := unitsPerOne_pos
  have h1 : x.magnitude * unitsPerOne / unitsPerOne = x.magnitude :=
    Nat.mul_div_cancel _ hpos
  have h2 : roundDiv (x.magnitude * unitsPerOne) (unitsPerOne * 2 ^ x.scale) = x.mantissa := by
    rw [magnitude, show x.mantissa * 2 ^ x.scale * unitsPerOne
      = x.mantissa * (unitsPerOne * 2 ^ x.scale) by ac_rfl]
    exact roundDiv_mul_self _ (Nat.mul_pos hpos (Nat.two_pow_pos _))
  have h3 : roundRatio x.magnitude unitsPerOne = (x.mantissa, x.scale) := by
    simp only [roundRatio, h1, scaleOf_magnitude, h2]
    rw [if_neg (Nat.ne_of_lt x.canonical.1)]
  simp only [ofRatio?, h3, x.canonical.2.1, dif_pos]

/-- The sum of two doubles, rounded to the nearest; `none` on overflow. -/
def add? (x y : Double) : Option Double :=
  let sum := x.units + y.units
  ofRatio? (sum < 0 || (sum == 0 && x.negative && y.negative)) sum.natAbs unitsPerOne

/-- The double with the other sign. -/
def neg (x : Double) : Double := { x with negative := !x.negative }

/-- The difference of two doubles, rounded to the nearest. -/
def sub? (x y : Double) : Option Double := x.add? y.neg

/-- The distance from zero, as a double. -/
def abs (x : Double) : Double := { x with negative := false }

/-- The product of two doubles, rounded to the nearest. -/
def mul? (x y : Double) : Option Double :=
  ofRatio? (x.negative != y.negative) (x.magnitude * y.magnitude) (unitsPerOne * unitsPerOne)

/-- The quotient of a double by a natural number, rounded to the nearest. -/
def divNat? (x : Double) (n : Nat) : Option Double :=
  ofRatio? x.negative x.magnitude (unitsPerOne * n)

/-- The double nearest to an integer. -/
def ofInt? (n : Int) : Option Double := ofRatio? (n < 0) n.natAbs 1

/-- The signed magnitude, in units, of the double nearest to an integer. -/
def unitsOfInt (n : Int) : Int :=
  let rounded := roundRatio n.natAbs 1
  let magnitude := rounded.1 * 2 ^ rounded.2
  if n < 0 then -(magnitude : Int) else magnitude

end Double
end TableNotation
