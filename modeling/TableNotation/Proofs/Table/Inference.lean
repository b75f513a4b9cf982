import TableNotation.Proofs.SortedMap
import TableNotation.Proofs.Table.DirectiveLine
import TableNotation.Proofs.Value.ZeroSign
/-!
# What an inferred layout is

The columns of a table are the fields of its first record.  A default is one of the
values that were counted, and all of these were scalars; so a value that is left out
because it is the same as the default differs from it by the sign of a zero at most.
And each default is the value of its field in some record.

* `names_infer`: the columns.
* `majority?_of_get?_infer`, `exists_get?_of_get?_infer`: where the defaults come from.
* `isScalar_of_get?_infer`: the defaults are scalars.
-/

namespace TableNotation

namespace Defaults

theorem isScalar_of_majority? {values : List Value} {v : Value} (h : majority? values = some v) :
    v.isScalar = true := by
  unfold majority? at h
  split at h
  · rename_i hscalars
    exact List.all_eq_true.1 hscalars v (List.mem_of_find?_eq_some h)
  · exact absurd h (by simp)

/-- The most frequent scalar is one of the values. -/
theorem mem_of_majority? {values : List Value} {v : Value} (h : majority? values = some v) :
    v ∈ values := by
  unfold majority? at h
  split at h
  · exact List.mem_of_find?_eq_some h
  · cases h

variable {records : List Record} {name : String} {v : Value}

/-- A default is the most frequent value of its field. -/
theorem majority?_of_get?_infer (h : (infer records).get? name = some v) :
    majority? ((records.take sampleSize).filterMap (Fields.get? name)) = some v := by
  have hmem := SortedMap.mem_of_get?_ofList h
  obtain ⟨key, _, hentry⟩ := List.mem_filterMap.1 hmem
  obtain ⟨w, hmajority, hpair⟩ := Option.map_eq_some_iff.1 hentry
  obtain ⟨rfl, rfl⟩ := Prod.mk.inj hpair
  exact hmajority

/-- So it is the value of the field in some record. -/
theorem exists_get?_of_get?_infer (h : (infer records).get? name = some v) :
    ∃ record ∈ records, Fields.get? name record = some v := by
  have hmem := mem_of_majority? (majority?_of_get?_infer h)
  obtain ⟨record, hrecord, hfound⟩ := List.mem_filterMap.1 hmem
  exact ⟨record, List.mem_of_mem_take hrecord, hfound⟩

end Defaults

namespace Layout

variable (optimize : Bool) (records : List Record)

/-- The columns are the fields of the first record. -/
theorem names_infer :
    (infer optimize records).schema.map Prod.fst = Fields.keys (records.headD []) := by
  cases records with
  | nil => rfl
  | cons first rest =>
    show (Schema.ofRecord first).map Prod.fst = Fields.keys first
    rw [Schema.ofRecord, List.map_map]
    rfl

/-- If there are defaults they are those of the records. -/
theorem get?_defaults_of_infer {name : String} {v : Value}
    (h : (infer optimize records).defaults.get? name = some v) :
    (Defaults.infer records).get? name = some v := by
  cases records with
  | nil => exact absurd h (by simp [infer, empty])
  | cons first rest =>
    unfold infer at h
    cases optimize with
    | true => exact h
    | false => exact absurd h (by simp)

/-- The defaults are scalars. -/
theorem isScalar_of_get?_infer {name : String} {v : Value}
    (h : (infer optimize records).defaults.get? name = some v) : v.isScalar = true :=
  Defaults.isScalar_of_majority?
    (Defaults.majority?_of_get?_infer (get?_defaults_of_infer optimize records h))

theorem haveDistinctKeys_infer : (infer optimize records).defaults.HaveDistinctKeys := by
  intro e he
  obtain ⟨name, v⟩ := e
  have hscalar := isScalar_of_get?_infer optimize records (SortedMap.get?_eq_some_iff.2 he)
  cases v with
  | array items => exact absurd hscalar Bool.false_ne_true
  | object fields => exact absurd hscalar Bool.false_ne_true
  | _ => trivial

end Layout
end TableNotation
