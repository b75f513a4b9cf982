import TableNotation.Value.Strings
/-!
# Replacing the texts of a value

Replacing the texts inside a value leaves its shape alone: the names of its fields,
their places and their number.  So it can be done before or after a field is looked
up, and two replacements one after the other are one.

* `mapStrings_mapStrings`, `hasDistinctKeys_mapStrings`
* `get?_mapFields`, `getOrNull_mapFields`
-/

namespace TableNotation

namespace Fields

/-- A field of a new name goes to the end. -/
theorem insert_of_not_mem {key : String} (value : Value) {fields : Fields}
    (h : key ∉ keys fields) : insert key value fields = fields ++ [(key, value)] := by
  induction fields with
  | nil => rfl
  | cons head rest ih =>
    obtain ⟨k, v⟩ := head
    have hk : k ≠ key := by
      rintro rfl
      exact h List.mem_cons_self
    have hrest : key ∉ keys rest := fun hm => h (List.mem_cons_of_mem _ hm)
    rw [insert, if_neg hk, ih hrest, List.cons_append]

/-- What is found under a name is an entry of that name. -/
theorem mem_of_get? {fields : Fields} {key : String} {v : Value} (h : get? key fields = some v) :
    (key, v) ∈ fields := by
  induction fields with
  | nil => exact absurd h (by simp [get?])
  | cons head rest ih =>
    obtain ⟨k, w⟩ := head
    rw [get?] at h
    split at h
    · rename_i hk
      rw [hk, Option.some.inj h]
      exact List.mem_cons_self
    · exact List.mem_cons_of_mem _ (ih h)

/-- The fields with entries laid over them: an entry takes the place of the field of its
name, and goes to the end if there is none. -/
def overlay (fields entries : Fields) : Fields :=
  entries.foldl (fun fields e => insert e.1 e.2 fields) fields

/-- Entries of new and different names go to the end. -/
theorem overlay_of_nodup {done todo : Fields} (h : (keys done ++ keys todo).Nodup) :
    overlay done todo = done ++ todo := by
  induction todo generalizing done with
  | nil => simp [overlay]
  | cons e rest ih =>
    have hnot : e.1 ∉ keys done := by
      intro hmem
      exact (List.nodup_append.1 h).2.2 _ hmem _ List.mem_cons_self rfl
    have hstep : overlay done (e :: rest) = overlay (insert e.1 e.2 done) rest := rfl
    rw [hstep, insert_of_not_mem _ hnot, ih, List.append_assoc, List.singleton_append]
    simpa [keys] using h

/-- Entries of different names laid over nothing are these entries. -/
theorem overlay_nil {entries : Fields} (h : (keys entries).Nodup) : overlay [] entries = entries :=
  overlay_of_nodup h

/-- Fields of different names are the fields of their own list of entries. -/
theorem ofEntries_eq_self {fields : Fields} (h : (keys fields).Nodup) :
    ofEntries fields = fields :=
  overlay_nil h

end Fields

namespace Value

mutual

/-- It can be decided whether the objects of a value are objects. -/
def decideDistinctKeys : (v : Value) → Decidable v.hasDistinctKeys
  | .null | .bool _ | .number _ | .string _ => isTrue trivial
  | .array items => decideItemsDistinctKeys items
  | .object fields =>
    @instDecidableAnd _ _ (inferInstanceAs (Decidable (Fields.keys fields).Nodup))
      (decideFieldsDistinctKeys fields)

/-- So it can for the items of a list. -/
def decideItemsDistinctKeys : (items : List Value) → Decidable (itemsHaveDistinctKeys items)
  | [] => isTrue trivial
  | v :: rest => @instDecidableAnd _ _ (decideDistinctKeys v) (decideItemsDistinctKeys rest)

/-- So it can for the values of fields. -/
def decideFieldsDistinctKeys :
    (fields : List (String × Value)) → Decidable (fieldsHaveDistinctKeys fields)
  | [] => isTrue trivial
  | (_, v) :: rest => @instDecidableAnd _ _ (decideDistinctKeys v) (decideFieldsDistinctKeys rest)

end

instance (v : Value) : Decidable v.hasDistinctKeys := decideDistinctKeys v

variable (f g : String → String)

/-- Replacing texts in fields is replacing them in the value of each field. -/
theorem mapFields_eq_map (fields : List (String × Value)) :
    mapFields f fields = fields.map fun e => (e.1, e.2.mapStrings f) := by
  induction fields with
  | nil => rfl
  | cons e rest ih => rw [mapFields, ih, List.map_cons]

/-- The names of the fields stay, in their order. -/
@[simp] theorem keys_mapFields (fields : List (String × Value)) :
    Fields.keys (mapFields f fields) = Fields.keys fields := by
  rw [mapFields_eq_map, Fields.keys, List.map_map]
  rfl

mutual

/-- Two replacements one after the other are one. -/
theorem mapStrings_mapStrings :
    ∀ v : Value, (v.mapStrings g).mapStrings f = v.mapStrings (f ∘ g)
  | .null | .bool _ | .number _ => rfl
  | .string _ => rfl
  | .array items => congrArg Value.array (mapItems_mapItems items)
  | .object fields => congrArg Value.object (mapFields_mapFields fields)

/-- The same of the items of a list. -/
theorem mapItems_mapItems :
    ∀ items : List Value, mapItems f (mapItems g items) = mapItems (f ∘ g) items
  | [] => rfl
  | v :: rest => by
    rw [mapItems, mapItems, mapItems, mapStrings_mapStrings v, mapItems_mapItems rest]

/-- The same of the values of fields. -/
theorem mapFields_mapFields : ∀ fields : List (String × Value),
    mapFields f (mapFields g fields) = mapFields (f ∘ g) fields
  | [] => rfl
  | (_, v) :: rest => by
    rw [mapFields, mapFields, mapFields, mapStrings_mapStrings v, mapFields_mapFields rest]

end

mutual

/-- Replacing texts leaves the names of fields alone. -/
theorem hasDistinctKeys_mapStrings :
    ∀ v : Value, v.hasDistinctKeys → (v.mapStrings f).hasDistinctKeys
  | .null, _ | .bool _, _ | .number _, _ => trivial
  | .string _, _ => trivial
  | .array items, h => itemsHaveDistinctKeys_mapItems items h
  | .object fields, h => by
    refine ⟨?_, fieldsHaveDistinctKeys_mapFields fields h.2⟩
    rw [keys_mapFields]
    exact h.1

/-- Objects among the items of a list stay objects. -/
theorem itemsHaveDistinctKeys_mapItems : ∀ items : List Value,
    itemsHaveDistinctKeys items → itemsHaveDistinctKeys (mapItems f items)
  | [], _ => trivial
  | v :: rest, h =>
    ⟨hasDistinctKeys_mapStrings v h.1, itemsHaveDistinctKeys_mapItems rest h.2⟩

/-- Objects among the values of fields stay objects. -/
theorem fieldsHaveDistinctKeys_mapFields : ∀ fields : List (String × Value),
    fieldsHaveDistinctKeys fields → fieldsHaveDistinctKeys (mapFields f fields)
  | [], _ => trivial
  | (_, v) :: rest, h =>
    ⟨hasDistinctKeys_mapStrings v h.1, fieldsHaveDistinctKeys_mapFields rest h.2⟩

end

/-- A field can be looked up before or after the replacement. -/
theorem get?_mapFields (key : String) (fields : List (String × Value)) :
    Fields.get? key (mapFields f fields) = (Fields.get? key fields).map (mapStrings f) := by
  induction fields with
  | nil => rfl
  | cons head rest ih =>
    obtain ⟨k, v⟩ := head
    rw [mapFields, Fields.get?, Fields.get?]
    split
    · rfl
    · exact ih

/-- So can a field that may be missing, since null has no texts. -/
theorem getOrNull_mapFields (key : String) (fields : List (String × Value)) :
    Fields.getOrNull key (mapFields f fields) = (Fields.getOrNull key fields).mapStrings f := by
  unfold Fields.getOrNull
  rw [get?_mapFields]
  cases Fields.get? key fields <;> rfl

/-- An item of a list of well-formed values is well-formed. -/
theorem hasDistinctKeys_of_mem {items : List Value} (h : itemsHaveDistinctKeys items) {v : Value}
    (hv : v ∈ items) : v.hasDistinctKeys := by
  induction items with
  | nil => exact absurd hv List.not_mem_nil
  | cons w rest ih =>
    rcases List.mem_cons.1 hv with rfl | hv
    · exact h.1
    · exact ih h.2 hv

/-- So is the value of a field. -/
theorem hasDistinctKeys_of_mem_fields {fields : List (String × Value)}
    (h : fieldsHaveDistinctKeys fields) {e : String × Value} (he : e ∈ fields) :
    e.2.hasDistinctKeys := by
  induction fields with
  | nil => exact absurd he List.not_mem_nil
  | cons first rest ih =>
    rcases List.mem_cons.1 he with rfl | he
    · exact h.1
    · exact ih h.2 he

/-- So is what is looked up under a name, found or not. -/
theorem hasDistinctKeys_getOrNull {fields : Fields} (h : fieldsHaveDistinctKeys fields)
    (key : String) : (Fields.getOrNull key fields).hasDistinctKeys := by
  induction fields with
  | nil => exact trivial
  | cons head rest ih =>
    obtain ⟨k, v⟩ := head
    unfold Fields.getOrNull
    rw [Fields.get?]
    split
    · exact h.1
    · exact ih h.2

end Value
end TableNotation
