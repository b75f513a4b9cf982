import TableNotation.Value.Basic
/-!
# The texts inside a value

The *leaves* of a value are the texts in it, however deep in lists and objects;
the names of fields are not among them.

* `Value.strings` lists the leaves in order of occurrence, and
  `Value.mapStrings` replaces each of them;
* `strings_mapStrings` says that it replaces each of them once, and
  `mapStrings_eq_self` that nothing else changes.
-/

namespace TableNotation

namespace Value

mutual

/-- The texts in a value, in order. -/
def strings : Value → List String
  | .string s => [s]
  | .array items => itemStrings items
  | .object fields => fieldStrings fields
  | _ => []

/-- The texts in a list of values, in order. -/
def itemStrings : List Value → List String
  | [] => []
  | v :: rest => v.strings ++ itemStrings rest

/-- The texts in the values of fields, in order. -/
def fieldStrings : List (String × Value) → List String
  | [] => []
  | (_, v) :: rest => v.strings ++ fieldStrings rest

end

mutual

/-- The value with each text in it replaced. -/
def mapStrings (f : String → String) : Value → Value
  | .string s => .string (f s)
  | .array items => .array (mapItems f items)
  | .object fields => .object (mapFields f fields)
  | v => v

/-- The values with each text in them replaced. -/
def mapItems (f : String → String) : List Value → List Value
  | [] => []
  | v :: rest => v.mapStrings f :: mapItems f rest

/-- The fields with each text in their values replaced. -/
def mapFields (f : String → String) : List (String × Value) → List (String × Value)
  | [] => []
  | (k, v) :: rest => (k, v.mapStrings f) :: mapFields f rest

end

mutual

/-- Replacing touches each leaf once. -/
theorem strings_mapStrings (f : String → String) :
    ∀ v : Value, (v.mapStrings f).strings = v.strings.map f
  | .null | .bool _ | .number _ => rfl
  | .string _ => rfl
  | .array items => itemStrings_mapItems f items
  | .object fields => fieldStrings_mapFields f fields

theorem itemStrings_mapItems (f : String → String) :
    ∀ items : List Value, itemStrings (mapItems f items) = (itemStrings items).map f
  | [] => rfl
  | v :: rest => by
    simp [mapItems, itemStrings, strings_mapStrings f v, itemStrings_mapItems f rest]

theorem fieldStrings_mapFields (f : String → String) :
    ∀ fields : List (String × Value),
      fieldStrings (mapFields f fields) = (fieldStrings fields).map f
  | [] => rfl
  | (_, v) :: rest => by
    simp [mapFields, fieldStrings, strings_mapStrings f v, fieldStrings_mapFields f rest]

end

mutual

/-- A replacement that keeps every leaf of a value keeps the value. -/
theorem mapStrings_eq_self (f : String → String) :
    ∀ v : Value, (∀ s ∈ v.strings, f s = s) → v.mapStrings f = v
  | .null, _ | .bool _, _ | .number _, _ => rfl
  | .string s, h => by simp [mapStrings, h s (by simp [strings])]
  | .array items, h => by simp [mapStrings, mapItems_eq_self f items h]
  | .object fields, h => by simp [mapStrings, mapFields_eq_self f fields h]

theorem mapItems_eq_self (f : String → String) :
    ∀ items : List Value, (∀ s ∈ itemStrings items, f s = s) → mapItems f items = items
  | [], _ => rfl
  | v :: rest, h => by
    simp only [itemStrings, List.mem_append] at h
    rw [mapItems, mapStrings_eq_self f v fun s hs => h s (.inl hs),
      mapItems_eq_self f rest fun s hs => h s (.inr hs)]

theorem mapFields_eq_self (f : String → String) :
    ∀ fields : List (String × Value),
      (∀ s ∈ fieldStrings fields, f s = s) → mapFields f fields = fields
  | [], _ => rfl
  | (k, v) :: rest, h => by
    simp only [fieldStrings, List.mem_append] at h
    rw [mapFields, mapStrings_eq_self f v fun s hs => h s (.inl hs),
      mapFields_eq_self f rest fun s hs => h s (.inr hs)]

end

end Value
end TableNotation
