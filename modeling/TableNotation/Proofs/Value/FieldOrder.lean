import TableNotation.Proofs.Value.Sameness
/-!
# The order of fields

Values that are the same stay the same when their texts are replaced, whichever texts take their
place.  They may differ in the signs of their zeros and in the order of the fields of their
objects.  An object with a single field has but one order, so where all objects are as small as
that, only the signs of zeros are left.

* `same_mapStrings_of_same`: replacing texts keeps values the same.
* `hasSingleFields`: values in which no order of fields can differ.
* `positiveZeros_eq_of_hasSingleFields`: such values are equal but for the signs of zeros.
-/

namespace TableNotation.Value

mutual

/-- Values that are the same stay the same when their texts are replaced. -/
theorem same_mapStrings_of_same (f : String → String) :
    ∀ v w : Value, v.same w = true → (v.mapStrings f).same (w.mapStrings f) = true
  | .null, w, h | .bool _, w, h | .number _, w, h => by
    cases w <;> exact h
  | .string s, w, h => by
    cases w with
    | string t =>
      obtain rfl : s = t := eq_of_beq h
      exact beq_self_eq_true (f s)
    | _ => exact absurd h Bool.false_ne_true
  | .array items, w, h => by
    cases w with
    | array others => exact sameItems_mapItems_of_same f items others h
    | _ => exact absurd h Bool.false_ne_true
  | .object fields, w, h => by
    cases w with
    | object others =>
      obtain ⟨hlength, hfields⟩ := Bool.and_eq_true_iff.1 h
      have hlength' : ((mapFields f fields).length == (mapFields f others).length) = true := by
        rwa [mapFields_eq_map, mapFields_eq_map, List.length_map, List.length_map]
      exact Bool.and_eq_true_iff.2 ⟨hlength', sameFields_mapFields_of_same f fields others hfields⟩
    | _ => exact absurd h Bool.false_ne_true

theorem sameItems_mapItems_of_same (f : String → String) : ∀ items others : List Value,
    sameItems items others = true → sameItems (mapItems f items) (mapItems f others) = true
  | [], others, h => by
    cases others with
    | nil => rfl
    | cons w more => exact absurd h Bool.false_ne_true
  | v :: rest, others, h => by
    cases others with
    | nil => exact absurd h Bool.false_ne_true
    | cons w more =>
      obtain ⟨hv, hrest⟩ := Bool.and_eq_true_iff.1 h
      exact Bool.and_eq_true_iff.2
        ⟨same_mapStrings_of_same f v w hv, sameItems_mapItems_of_same f rest more hrest⟩

theorem sameFields_mapFields_of_same (f : String → String) :
    ∀ fields others : List (String × Value),
      sameFields fields others = true → sameFields (mapFields f fields) (mapFields f others) = true
  | [], _, _ => rfl
  | (k, v) :: rest, others, h => by
    rw [sameFields, Bool.and_eq_true] at h
    obtain ⟨hv, hrest⟩ := h
    rw [mapFields, sameFields, get?_mapFields,
      sameFields_mapFields_of_same f rest others hrest, Bool.and_true]
    cases hfound : Fields.get? k others with
    | none =>
      rw [hfound] at hv
      exact absurd hv Bool.false_ne_true
    | some w =>
      rw [hfound] at hv
      exact same_mapStrings_of_same f v w hv

end

mutual

/-- Whether no object inside the value has more than one field. -/
def hasSingleFields : Value → Bool
  | .array items => itemsHaveSingleFields items
  | .object fields => fields.length ≤ 1 && fieldsHaveSingleFields fields
  | _ => true

/-- Whether no object inside the values has more than one field. -/
def itemsHaveSingleFields : List Value → Bool
  | [] => true
  | v :: rest => v.hasSingleFields && itemsHaveSingleFields rest

/-- Whether no object inside the values of the fields has more than one field. -/
def fieldsHaveSingleFields : List (String × Value) → Bool
  | [] => true
  | (_, v) :: rest => v.hasSingleFields && fieldsHaveSingleFields rest

end

mutual

/-- Where no object has more than one field, values that are the same are equal but for the signs
of zeros. -/
theorem positiveZeros_eq_of_hasSingleFields : ∀ v w : Value, w.hasSingleFields = true →
    v.same w = true → v.positiveZeros = w.positiveZeros
  | .null, _, _, h | .bool _, _, _, h | .number _, _, _, h | .string _, _, _, h =>
    positiveZeros_eq_of_same rfl h
  | .array items, w, hw, h => by
    cases w with
    | array others =>
      exact congrArg array (itemsPositiveZeros_eq_of_hasSingleFields items others hw h)
    | _ => exact absurd h Bool.false_ne_true
  | .object fields, w, hw, h => by
    cases w with
    | object others =>
      obtain ⟨hlength, hfields⟩ := Bool.and_eq_true_iff.1 h
      obtain ⟨hsmall, hothers⟩ := Bool.and_eq_true_iff.1 hw
      exact congrArg object (fieldsPositiveZeros_eq_of_hasSingleFields fields others
        (eq_of_beq hlength) (of_decide_eq_true hsmall) hothers hfields)
    | _ => exact absurd h Bool.false_ne_true

theorem itemsPositiveZeros_eq_of_hasSingleFields : ∀ items others : List Value,
    itemsHaveSingleFields others = true → sameItems items others = true →
      itemsPositiveZeros items = itemsPositiveZeros others
  | [], others, _, h => by
    cases others with
    | nil => rfl
    | cons w more => exact absurd h Bool.false_ne_true
  | v :: rest, others, hw, h => by
    cases others with
    | nil => exact absurd h Bool.false_ne_true
    | cons w more =>
      obtain ⟨hv, hrest⟩ := Bool.and_eq_true_iff.1 h
      obtain ⟨hw', hmore⟩ := Bool.and_eq_true_iff.1 hw
      rw [itemsPositiveZeros, itemsPositiveZeros, positiveZeros_eq_of_hasSingleFields v w hw' hv,
        itemsPositiveZeros_eq_of_hasSingleFields rest more hmore hrest]

/-- One field is the same as another only if it is found in its place. -/
theorem fieldsPositiveZeros_eq_of_hasSingleFields : ∀ fields others : List (String × Value),
    fields.length = others.length → others.length ≤ 1 → fieldsHaveSingleFields others = true →
      sameFields fields others = true → fieldsPositiveZeros fields = fieldsPositiveZeros others
  | [], others, hlength, _, _, _ => by
    rw [List.eq_nil_of_length_eq_zero hlength.symm]
  | (k, v) :: rest, others, hlength, hsmall, hothers, h => by
    obtain ⟨⟨k', w⟩, rfl⟩ : ∃ e, others = [e] := by
      apply List.length_eq_one_iff.1
      rw [List.length_cons] at hlength
      omega
    obtain rfl : rest = [] := List.eq_nil_of_length_eq_zero (by simpa using hlength)
    obtain ⟨hv, _⟩ := Bool.and_eq_true_iff.1 h
    obtain ⟨hw, _⟩ := Bool.and_eq_true_iff.1 hothers
    by_cases hk : k' = k
    · subst hk
      rw [Fields.get?, if_pos rfl] at hv
      rw [fieldsPositiveZeros, fieldsPositiveZeros, positiveZeros_eq_of_hasSingleFields v w hw hv]
      rfl
    · rw [Fields.get?, if_neg hk] at hv
      exact absurd hv Bool.false_ne_true

end

end TableNotation.Value
