import TableNotation.Proofs.Value.Mapping
import TableNotation.Value.Order
/-!
# The sign of zeros

Two values of a document may be the same although one has a zero with a sign where
the other has none.  Giving every zero in a value the positive sign takes this
difference away, and no other: numbers of one value become equal, and integers stay
apart from doubles.

* `positiveZeros`: the value with all its zeros positive.
* `positiveZeros_eq_of_same`: scalars that are the same become equal.
* `positiveZeros_mapStrings`: zeros and texts do not meet.
-/

namespace TableNotation

namespace Double

/-- The magnitude of a double determines its mantissa and its scale. -/
theorem eq_of_magnitude_eq {x y : Double} (h : x.magnitude = y.magnitude) :
    x.mantissa = y.mantissa ∧ x.scale = y.scale := by
  have hscale : x.scale = y.scale := by
    rw [← scaleOf_magnitude x, ← scaleOf_magnitude y, h]
  refine ⟨?_, hscale⟩
  unfold magnitude at h
  rw [hscale] at h
  exact Nat.eq_of_mul_eq_mul_right (Nat.two_pow_pos _) h

/-- Doubles with the same units have the same magnitude. -/
theorem magnitude_eq_of_units_eq {x y : Double} (h : x.units = y.units) :
    x.magnitude = y.magnitude := by
  unfold units at h
  split at h <;> split at h <;> omega

/-- Doubles of one value are equal, unless they are zeros. -/
theorem eq_of_units_eq {x y : Double} (h : x.units = y.units) (hx : x.magnitude ≠ 0) : x = y := by
  have hmagnitude := magnitude_eq_of_units_eq h
  obtain ⟨hmantissa, hscale⟩ := eq_of_magnitude_eq hmagnitude
  have hsign : x.negative = y.negative := by
    unfold units at h
    rw [hmagnitude] at h hx
    cases hnegative : x.negative <;> cases hnegative' : y.negative <;>
      simp [hnegative, hnegative'] at h ⊢ <;> omega
  cases x
  cases y
  simp only at hmantissa hscale hsign
  subst hmantissa hscale hsign
  rfl

/-- The double, a zero having the positive sign. -/
def positiveZero (x : Double) : Double := if x.magnitude = 0 then .zero false else x

/-- Doubles of one value are equal once their zeros are positive. -/
theorem positiveZero_eq_of_units_eq {x y : Double} (h : x.units = y.units) :
    x.positiveZero = y.positiveZero := by
  have hmagnitude := magnitude_eq_of_units_eq h
  unfold positiveZero
  by_cases hzero : x.magnitude = 0
  · rw [if_pos hzero, if_pos (hmagnitude ▸ hzero)]
  · rw [if_neg hzero, if_neg (hmagnitude ▸ hzero), eq_of_units_eq h hzero]

end Double

/-- The number, a zero having the positive sign. -/
def Number.positiveZero : Number → Number
  | .integer n fits => .integer n fits
  | .float x => .float x.positiveZero

/-- Numbers of one kind and value are equal but for the signs of zeros. -/
theorem Number.positiveZero_eq_of_same {a b : Number} (h : a.same b = true) :
    a.positiveZero = b.positiveZero := by
  cases a with
  | integer m fits =>
    cases b with
    | integer n fits' =>
      obtain rfl : m = n := eq_of_beq h
      rfl
    | float y => exact absurd h Bool.false_ne_true
  | float x =>
    cases b with
    | integer n fits => exact absurd h Bool.false_ne_true
    | float y => exact congrArg Number.float (Double.positiveZero_eq_of_units_eq (eq_of_beq h))

namespace Value

mutual

/-- The value with the positive sign for every zero in it. -/
def positiveZeros : Value → Value
  | .number n => .number n.positiveZero
  | .array items => .array (itemsPositiveZeros items)
  | .object fields => .object (fieldsPositiveZeros fields)
  | v => v

/-- The values with the positive sign for every zero in them. -/
def itemsPositiveZeros : List Value → List Value
  | [] => []
  | v :: rest => v.positiveZeros :: itemsPositiveZeros rest

/-- The fields with the positive sign for every zero in their values. -/
def fieldsPositiveZeros : List (String × Value) → List (String × Value)
  | [] => []
  | (k, v) :: rest => (k, v.positiveZeros) :: fieldsPositiveZeros rest

end

/-- Zeros are made positive item by item. -/
theorem itemsPositiveZeros_eq_map (items : List Value) :
    itemsPositiveZeros items = items.map positiveZeros := by
  induction items with
  | nil => rfl
  | cons v rest ih => rw [itemsPositiveZeros, ih, List.map_cons]

/-- So they are field by field. -/
theorem fieldsPositiveZeros_eq_map (fields : List (String × Value)) :
    fieldsPositiveZeros fields = fields.map fun e => (e.1, e.2.positiveZeros) := by
  induction fields with
  | nil => rfl
  | cons e rest ih => rw [fieldsPositiveZeros, ih, List.map_cons]

/-- A value without negative zeros has none among its items, and so it is with fields. -/
theorem itemsPositiveZeros_eq_self_iff {items : List Value} :
    itemsPositiveZeros items = items ↔ ∀ v ∈ items, v.positiveZeros = v := by
  have hmap := @List.map_inj_left _ _ items positiveZeros id
  rwa [List.map_id, ← itemsPositiveZeros_eq_map] at hmap

/-- Fields have no negative zeros if none of their values has one. -/
theorem fieldsPositiveZeros_eq_self_iff {fields : List (String × Value)} :
    fieldsPositiveZeros fields = fields ↔ ∀ e ∈ fields, e.2.positiveZeros = e.2 := by
  have hmap := @List.map_inj_left _ _ fields (fun e => (e.1, e.2.positiveZeros)) id
  rw [List.map_id, ← fieldsPositiveZeros_eq_map] at hmap
  rw [hmap]
  constructor
  · exact fun h e he => congrArg Prod.snd (h e he)
  · exact fun h e he => congrArg (Prod.mk e.1) (h e he)

/-- Then what is looked up among them has none. -/
theorem positiveZeros_getOrNull {fields : Fields} (h : fieldsPositiveZeros fields = fields)
    (name : String) :
    (Fields.getOrNull name fields).positiveZeros = Fields.getOrNull name fields := by
  unfold Fields.getOrNull
  cases hfound : Fields.get? name fields with
  | none => rfl
  | some v => exact fieldsPositiveZeros_eq_self_iff.1 h _ (Fields.mem_of_get? hfound)

variable (f : String → String)

mutual

/-- Texts can be replaced before or after the zeros are made positive. -/
theorem positiveZeros_mapStrings :
    ∀ v : Value, (v.mapStrings f).positiveZeros = v.positiveZeros.mapStrings f
  | .null | .bool _ | .number _ => rfl
  | .string _ => rfl
  | .array items => congrArg Value.array (itemsPositiveZeros_mapItems items)
  | .object fields => congrArg Value.object (fieldsPositiveZeros_mapFields fields)

/-- The same of the items of a list. -/
theorem itemsPositiveZeros_mapItems : ∀ items : List Value,
    itemsPositiveZeros (mapItems f items) = mapItems f (itemsPositiveZeros items)
  | [] => rfl
  | v :: rest => by
    rw [mapItems, itemsPositiveZeros, itemsPositiveZeros, mapItems, positiveZeros_mapStrings v,
      itemsPositiveZeros_mapItems rest]

/-- The same of the values of fields. -/
theorem fieldsPositiveZeros_mapFields : ∀ fields : List (String × Value),
    fieldsPositiveZeros (mapFields f fields) = mapFields f (fieldsPositiveZeros fields)
  | [] => rfl
  | (_, v) :: rest => by
    rw [mapFields, fieldsPositiveZeros, fieldsPositiveZeros, mapFields,
      positiveZeros_mapStrings v, fieldsPositiveZeros_mapFields rest]

end

/-- A scalar and a value that is the same are equal but for the signs of zeros. -/
theorem positiveZeros_eq_of_same {v w : Value} (hv : v.isScalar = true) (h : v.same w = true) :
    v.positiveZeros = w.positiveZeros := by
  cases v with
  | null => cases w <;> first | rfl | exact absurd h Bool.false_ne_true
  | bool a =>
    cases w with
    | bool b =>
      obtain rfl : a = b := eq_of_beq h
      rfl
    | _ => exact absurd h Bool.false_ne_true
  | number a =>
    cases w with
    | number b => exact congrArg Value.number (Number.positiveZero_eq_of_same h)
    | _ => exact absurd h Bool.false_ne_true
  | string s =>
    cases w with
    | string t =>
      obtain rfl : s = t := eq_of_beq h
      rfl
    | _ => exact absurd h Bool.false_ne_true
  | array items => exact absurd hv Bool.false_ne_true
  | object fields => exact absurd hv Bool.false_ne_true

end Value
end TableNotation
