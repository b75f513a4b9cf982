import TableNotation.Proofs.Value.ZeroSign
/-!
# Values that are the same in a document

Two values are the same if they differ in the order of the fields of their objects and
in the signs of their zeros only.  So the zeros of a value can be given the positive
sign before it is compared, and for objects it is enough to look each field up in the
other object.

* `same_positiveZeros`, `same_congr`: the signs of zeros do not count.
* `sameFields_iff`: fields are compared by their names.
* `same_self`: a value whose objects are objects is the same as itself.
-/

namespace TableNotation

namespace Fields

/-- An entry among different names is what is found under its name. -/
theorem get?_of_mem {fields : Fields} (h : (keys fields).Nodup) {e : String × Value}
    (he : e ∈ fields) : get? e.1 fields = some e.2 := by
  induction fields with
  | nil => exact absurd he List.not_mem_nil
  | cons head rest ih =>
    obtain ⟨k, v⟩ := head
    obtain ⟨hk, hrest⟩ := List.nodup_cons.1 h
    rcases List.mem_cons.1 he with rfl | he
    · exact if_pos rfl
    · have hne : k ≠ e.1 := fun heq => hk (List.mem_map.2 ⟨e, he, heq.symm⟩)
      rw [get?, if_neg hne]
      exact ih hrest he

/-- What is found under a name shows that the name is there. -/
theorem mem_keys_of_get? {fields : Fields} {key : String} {v : Value}
    (h : get? key fields = some v) : key ∈ keys fields :=
  List.mem_map.2 ⟨(key, v), mem_of_get? h, rfl⟩

/-- Something is found under each name. -/
theorem get?_of_mem_keys {fields : Fields} {key : String} (h : key ∈ keys fields) :
    get? key fields = some (getOrNull key fields) := by
  induction fields with
  | nil => exact absurd h List.not_mem_nil
  | cons head rest ih =>
    obtain ⟨k, v⟩ := head
    by_cases hk : k = key
    · simp [get?, getOrNull, hk]
    · have hrest : key ∈ keys rest := (List.mem_cons.1 h).resolve_left (Ne.symm hk)
      simpa [get?, getOrNull, hk] using ih hrest

end Fields

namespace Double

/-- The sign of a zero does not count in the units of a double. -/
theorem units_positiveZero (x : Double) : x.positiveZero.units = x.units := by
  unfold positiveZero
  split
  · rename_i hzero
    have hunits : x.units = 0 := by
      unfold units
      rw [hzero]
      split <;> rfl
    rw [hunits]
    rfl
  · rfl

end Double

/-- The sign of a zero does not count. -/
theorem Number.same_positiveZero (a b : Number) : a.positiveZero.same b = a.same b := by
  cases a with
  | integer n fits => rfl
  | float x =>
    cases b with
    | integer n fits => rfl
    | float y =>
      simp only [positiveZero, same, Double.units_positiveZero]

/-- A number is the same as itself. -/
theorem Number.same_self (a : Number) : a.same a = true := by
  cases a <;> exact beq_self_eq_true _

namespace Value

mutual

/-- The signs of zeros do not count. -/
theorem same_positiveZeros : ∀ v w : Value, v.positiveZeros.same w = v.same w
  | .null, _ | .bool _, _ | .string _, _ => rfl
  | .number a, w => by
    cases w with
    | number b => exact Number.same_positiveZero a b
    | _ => rfl
  | .array as, w => by
    cases w with
    | array bs => exact sameItems_positiveZeros as bs
    | _ => rfl
  | .object as, w => by
    cases w with
    | object bs =>
      have hlength : (fieldsPositiveZeros as).length = as.length := by
        rw [fieldsPositiveZeros_eq_map, List.length_map]
      rw [positiveZeros, same, same, hlength, sameFields_positiveZeros as bs]
    | _ => rfl

/-- The same of the items of lists. -/
theorem sameItems_positiveZeros :
    ∀ as bs : List Value, sameItems (itemsPositiveZeros as) bs = sameItems as bs
  | [], _ => rfl
  | a :: as, bs => by
    cases bs with
    | nil => rfl
    | cons b bs =>
      rw [itemsPositiveZeros, sameItems, sameItems, same_positiveZeros a b,
        sameItems_positiveZeros as bs]

/-- The same of the values of fields. -/
theorem sameFields_positiveZeros : ∀ as bs : List (String × Value),
    sameFields (fieldsPositiveZeros as) bs = sameFields as bs
  | [], _ => rfl
  | (k, v) :: as, bs => by
    rw [fieldsPositiveZeros, sameFields, sameFields, sameFields_positiveZeros as bs]
    cases Fields.get? k bs with
    | none => rfl
    | some w => exact congrArg (· && _) (same_positiveZeros v w)

end

/-- Values that are equal but for the signs of zeros are the same as the same values. -/
theorem same_congr {v v' : Value} (h : v.positiveZeros = v'.positiveZeros) (w : Value) :
    v.same w = v'.same w := by
  rw [← same_positiveZeros v, h, same_positiveZeros v']

/-- Fields are compared by their names. -/
theorem sameFields_iff {as bs : List (String × Value)} : sameFields as bs = true ↔
    ∀ e ∈ as, ∃ w, Fields.get? e.1 bs = some w ∧ e.2.same w = true := by
  induction as with
  | nil => simp [sameFields]
  | cons e rest ih =>
    rw [sameFields, Bool.and_eq_true, ih, List.forall_mem_cons]
    cases Fields.get? e.1 bs <;> simp

/-- Lists over the same places are compared place by place. -/
theorem sameItems_map {α : Type} (f g : α → Value) {xs : List α}
    (h : ∀ x ∈ xs, (f x).same (g x) = true) : sameItems (xs.map f) (xs.map g) = true := by
  induction xs with
  | nil => rfl
  | cons x rest ih =>
    obtain ⟨hx, hrest⟩ := List.forall_mem_cons.1 h
    rw [List.map_cons, List.map_cons, sameItems, hx, ih hrest]
    rfl

mutual

/-- A value whose objects are objects is the same as itself. -/
theorem same_self : ∀ v : Value, v.hasDistinctKeys → v.same v = true
  | .null, _ => rfl
  | .bool b, _ => beq_self_eq_true b
  | .number a, _ => Number.same_self a
  | .string s, _ => beq_self_eq_true s
  | .array items, h => sameItems_self items h
  | .object fields, h => by
    rw [same, beq_self_eq_true, Bool.true_and]
    exact sameFields_self fields h.2 fun e he => Fields.get?_of_mem h.1 he

/-- So is a list of such values. -/
theorem sameItems_self :
    ∀ items : List Value, itemsHaveDistinctKeys items → sameItems items items = true
  | [], _ => rfl
  | v :: rest, h => by
    rw [sameItems, same_self v h.1, sameItems_self rest h.2]
    rfl

/-- Fields are the same as fields among which they are found. -/
theorem sameFields_self {others : List (String × Value)} : ∀ fields : List (String × Value),
    fieldsHaveDistinctKeys fields → (∀ e ∈ fields, Fields.get? e.1 others = some e.2) →
      sameFields fields others = true
  | [], _, _ => rfl
  | (k, v) :: rest, h, hfound => by
    obtain ⟨hhead, hrest⟩ := List.forall_mem_cons.1 hfound
    have hv := same_self v h.1
    rw [sameFields, hhead, sameFields_self rest h.2 hrest]
    exact congrArg (· && true) hv

end

end Value
end TableNotation
