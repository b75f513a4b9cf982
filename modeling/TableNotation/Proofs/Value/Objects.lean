import TableNotation.Proofs.Success
import TableNotation.Proofs.Value.Mapping
/-!
# Objects and lists of objects

An object is made by inserting one field after the other, and insertions keep the names of
its fields different.  A list of records is read item by item, and it is one exactly if its
items are objects.

* `hasDistinctKeys_ofEntries`: fields of any entries are an object.
* `recordsFrom_eq_ok_iff`: which lists are lists of records.
-/

namespace TableNotation

namespace Fields

/-- An insertion keeps the names of fields different. -/
theorem nodup_keys_insert {key : String} {v : Value} {fields : Fields}
    (h : (keys fields).Nodup) : (keys (insert key v fields)).Nodup := by
  rw [keys_insert]
  by_cases hkey : key ∈ keys fields
  · rwa [if_pos hkey]
  · rw [if_neg hkey, List.nodup_append]
    refine ⟨h, List.nodup_cons.2 ⟨List.not_mem_nil, List.nodup_nil⟩, ?_⟩
    intro a ha b hb hab
    rw [List.mem_singleton.1 hb] at hab
    exact hkey (hab ▸ ha)

/-- The objects inside values stay objects when such a value is inserted. -/
theorem fieldsHaveDistinctKeys_insert {key : String} {v : Value} {fields : Fields}
    (hv : v.hasDistinctKeys) (h : Value.fieldsHaveDistinctKeys fields) :
    Value.fieldsHaveDistinctKeys (insert key v fields) := by
  induction fields with
  | nil => exact ⟨hv, trivial⟩
  | cons head rest ih =>
    obtain ⟨k, w⟩ := head
    rw [insert]
    by_cases hk : k = key
    · rw [if_pos hk]
      exact ⟨hv, h.2⟩
    · rw [if_neg hk]
      exact ⟨h.1, ih h.2⟩

theorem hasDistinctKeys_overlay {fields entries : Fields}
    (hfields : (Value.object fields).hasDistinctKeys)
    (h : ∀ e ∈ entries, e.2.hasDistinctKeys) :
    (Value.object (overlay fields entries)).hasDistinctKeys := by
  induction entries generalizing fields with
  | nil => exact hfields
  | cons e rest ih =>
    obtain ⟨he, hrest⟩ := List.forall_mem_cons.1 h
    exact ih ⟨nodup_keys_insert hfields.1, fieldsHaveDistinctKeys_insert he hfields.2⟩ hrest

/-- The fields of a list of entries are an object. -/
theorem hasDistinctKeys_ofEntries {entries : Fields} (h : ∀ e ∈ entries, e.2.hasDistinctKeys) :
    (Value.object (ofEntries entries)).hasDistinctKeys :=
  hasDistinctKeys_overlay ⟨List.nodup_nil, trivial⟩ h

end Fields

namespace Value

theorem itemsHaveDistinctKeys_of_forall {items : List Value} (h : ∀ v ∈ items, v.hasDistinctKeys) :
    itemsHaveDistinctKeys items := by
  induction items with
  | nil => trivial
  | cons v rest ih =>
    obtain ⟨hv, hrest⟩ := List.forall_mem_cons.1 h
    exact ⟨hv, ih hrest⟩

/-- A list is a list of records if its items are the objects of these records. -/
theorem recordsFrom_eq_ok_iff {index : Nat} {items : List Value} {records : List Record} :
    recordsFrom index items = .ok records ↔ items = records.map .object := by
  constructor
  · intro h
    induction items generalizing index records with
    | nil =>
      obtain rfl := Except.ok.inj h
      rfl
    | cons item rest ih =>
      cases item with
      | object record =>
        obtain ⟨others, hothers, hrecords⟩ := bind_eq_ok.1 h
        obtain rfl := Except.ok.inj hrecords
        rw [List.map_cons, ← ih hothers]
      | _ => cases h
  · intro h
    subst h
    induction records generalizing index with
    | nil => rfl
    | cons record rest ih =>
      rw [List.map_cons, recordsFrom, ih]
      rfl

end Value
end TableNotation
