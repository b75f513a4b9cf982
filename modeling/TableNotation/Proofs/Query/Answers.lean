import Mathlib.Data.List.Perm.Subperm
import TableNotation.Proofs.Value.Objects
import TableNotation.Query.Execution
/-!
# Answers of queries

What answers a query is a part of its table: some of the records, narrowed to the wanted
fields, each at most once, in some order.  Filtering and paging leave records out, and
ordering only moves them.  So an answer is never longer than the table, and its records are
objects if those of the table are.

* `exists_of_tableRecords`: the table of a query is a list of records.
* `exists_of_insertSorted`: where a record is put; `perm_of_sort`: ordering loses no record and
  adds none.
* `subperm_of_execute`: an answer is a part of the table.
* `length_le_of_execute`, `hasDistinctKeys_of_execute`: its length and its records.
-/

namespace TableNotation

/-- A projection of a record is a record. -/
theorem Record.hasDistinctKeys_project {record : Record}
    (h : (Value.object record).hasDistinctKeys) (fields : List String) :
    (Value.object (project fields record)).hasDistinctKeys := by
  apply Fields.hasDistinctKeys_ofEntries
  intro e he
  obtain ⟨field, _, rfl⟩ := List.mem_map.1 he
  exact Value.hasDistinctKeys_getOrNull h.2 field

/-! ### Ordered records -/

namespace Record

variable {field : String} {direction : Direction}

/-- An insertion puts a record between those that it precedes and one that it does not
precede. -/
theorem exists_of_insertSorted {record : Record} {sorted inserted : List Record}
    (h : insertSorted field direction record sorted = .ok inserted) :
    ∃ later earlier, sorted = later ++ earlier ∧ inserted = later ++ record :: earlier ∧
      (∀ x ∈ later, order field direction record x = .ok .lt) ∧
      ∀ x ∈ earlier.head?, ∃ rank, order field direction record x = .ok rank ∧
        rank.isGE = true := by
  induction sorted generalizing inserted with
  | nil =>
    obtain rfl := Except.ok.inj h
    exact ⟨[], [], rfl, rfl, nofun, nofun⟩
  | cons last before ih =>
    rw [insertSorted] at h
    obtain ⟨rank, hrank, h⟩ := bind_eq_ok.1 h
    cases rank with
    | lt =>
      obtain ⟨more, hmore, h⟩ := bind_eq_ok.1 h
      obtain rfl := Except.ok.inj h
      obtain ⟨later, earlier, rfl, rfl, hlater, hearlier⟩ := ih hmore
      exact ⟨last :: later, earlier, rfl, rfl, List.forall_mem_cons.2 ⟨hrank, hlater⟩, hearlier⟩
    | eq | gt =>
      obtain rfl := Except.ok.inj h
      refine ⟨[], last :: before, rfl, rfl, nofun, fun x hx => ?_⟩
      obtain rfl := Option.some.inj hx
      exact ⟨_, hrank, rfl⟩

/-- An insertion among ordered records adds the record. -/
theorem perm_of_insertSorted {record : Record} {sorted inserted : List Record}
    (h : insertSorted field direction record sorted = .ok inserted) :
    inserted.Perm (record :: sorted) := by
  obtain ⟨later, earlier, rfl, rfl, _⟩ := exists_of_insertSorted h
  exact List.perm_middle

theorem perm_of_sortOnto {sorted records all : List Record}
    (h : sortOnto field direction sorted records = .ok all) : all.Perm (records ++ sorted) := by
  induction records generalizing sorted with
  | nil =>
    obtain rfl := Except.ok.inj h
    exact .refl _
  | cons record rest ih =>
    obtain ⟨inserted, hinserted, h⟩ := bind_eq_ok.1 h
    exact (ih h).trans (((perm_of_insertSorted hinserted).append_left rest).trans
      List.perm_middle)

/-- Records are put in order one by one, the last one first. -/
theorem sort_eq_ok_iff {records ordered : List Record} :
    sort field direction records = .ok ordered ↔
      ∃ all, sortOnto field direction [] records = .ok all ∧ ordered = all.reverse := by
  unfold sort
  cases sortOnto field direction [] records with
  | error e => simp [Except.map]
  | ok all => simp [Except.map, eq_comm]

/-- Ordered records are the same records. -/
theorem perm_of_sort {records ordered : List Record}
    (h : sort field direction records = .ok ordered) : ordered.Perm records := by
  obtain ⟨all, hall, rfl⟩ := sort_eq_ok_iff.1 h
  have hperm := perm_of_sortOnto hall
  rw [List.append_nil] at hperm
  exact (List.reverse_perm all).trans hperm

end Record

/-- A filter leaves records out. -/
theorem Filter.sublist_of_select {filter : Filter} {records selected : List Record}
    (h : filter.select records = .ok selected) : selected.Sublist records := by
  induction records generalizing selected with
  | nil =>
    obtain rfl := Except.ok.inj h
    exact .refl _
  | cons record rest ih =>
    obtain ⟨accepted, _, h⟩ := bind_eq_ok.1 h
    obtain ⟨more, hmore, h⟩ := bind_eq_ok.1 h
    obtain rfl := Except.ok.inj h
    cases accepted with
    | false => exact (ih hmore).cons record
    | true => exact (ih hmore).cons_cons record

namespace Query

variable {q : Query} {document : Document} {rows : List Record}

/-- A table of records is a list of them. -/
theorem exists_of_tableRecords {table : String} {records : List Record}
    (h : tableRecords document table = .ok records) :
    Fields.get? table document = some (.array (records.map .object)) := by
  unfold tableRecords at h
  cases htable : Fields.get? table document with
  | none => simp [htable] at h
  | some v =>
    rw [htable] at h
    cases v with
    | array items => rw [Value.recordsFrom_eq_ok_iff.1 (mapError_eq_ok.1 h)]
    | _ => cases h

theorem sublist_of_filtered [PatternLimit] {records selected : List Record}
    (h : q.filtered records = .ok selected) : selected.Sublist records := by
  unfold filtered at h
  cases hfilter : q.filter with
  | none =>
    rw [hfilter] at h
    obtain rfl := Except.ok.inj h
    exact .refl _
  | some group =>
    rw [hfilter] at h
    obtain ⟨filter, _, h⟩ := bind_eq_ok.1 h
    exact Filter.sublist_of_select h

theorem perm_of_inOrder {records ordered : List Record}
    (h : q.inOrder records = .ok ordered) : ordered.Perm records := by
  unfold inOrder at h
  cases horder : q.orderBy with
  | none =>
    rw [horder] at h
    obtain rfl := Except.ok.inj h
    exact .refl _
  | some field =>
    rw [horder] at h
    exact Record.perm_of_sort h

theorem page_sublist (q : Query) (records : List Record) :
    (q.page records).Sublist records := by
  unfold page
  cases q.limit with
  | none => exact List.drop_sublist _ _
  | some limit => exact (List.take_sublist _ _).trans (List.drop_sublist _ _)

theorem projected_sublist (q : Query) {selected records : List Record}
    (h : selected.Sublist records) : (q.projected selected).Sublist (q.projected records) := by
  unfold projected
  cases q.fields with
  | none => exact h
  | some fields => exact h.map _

/-- What answers a query is a part of the records of its table, narrowed to the wanted
fields, in some order. -/
theorem subperm_of_execute [PatternLimit] (h : q.execute document = .ok rows) :
    ∃ records, Fields.get? q.table document = some (.array (records.map .object)) ∧
      rows.Subperm (q.projected records) := by
  obtain ⟨records, hrecords, h⟩ := bind_eq_ok.1 h
  obtain ⟨selected, hselected, h⟩ := bind_eq_ok.1 h
  obtain ⟨ordered, hordered, h⟩ := bind_eq_ok.1 h
  obtain rfl := Except.ok.inj h
  refine ⟨records, exists_of_tableRecords hrecords, ?_⟩
  have hprojected := projected_sublist q (sublist_of_filtered hselected)
  exact (page_sublist q ordered).subperm.trans
    ((perm_of_inOrder hordered).subperm.trans hprojected.subperm)

/-- An answer is not longer than the table. -/
theorem length_le_of_execute [PatternLimit] (h : q.execute document = .ok rows) : ∃ items,
    (q.table, Value.array items) ∈ document ∧ rows.length ≤ items.length := by
  obtain ⟨records, htable, hrows⟩ := subperm_of_execute h
  have hprojected : (q.projected records).length = records.length := by
    unfold projected
    cases q.fields with
    | none => rfl
    | some fields => exact List.length_map _
  refine ⟨_, Fields.mem_of_get? htable, ?_⟩
  rw [List.length_map, ← hprojected]
  exact hrows.length_le

/-- The records of an answer are objects. -/
theorem hasDistinctKeys_of_execute [PatternLimit]
    (hdistinct : (Value.object document).hasDistinctKeys)
    (h : q.execute document = .ok rows) :
    ∀ row ∈ rows, (Value.object row).hasDistinctKeys := by
  obtain ⟨records, htable, hrows⟩ := subperm_of_execute h
  have hrecords : ∀ record ∈ records, (Value.object record).hasDistinctKeys := by
    intro record hrecord
    have hitems : Value.itemsHaveDistinctKeys (records.map .object) :=
      Value.hasDistinctKeys_of_mem_fields hdistinct.2 (Fields.mem_of_get? htable)
    exact Value.hasDistinctKeys_of_mem hitems (List.mem_map_of_mem hrecord)
  intro row hrow
  have hmem := hrows.subset hrow
  unfold projected at hmem
  cases hfields : q.fields with
  | none =>
    rw [hfields] at hmem
    exact hrecords row hmem
  | some fields =>
    rw [hfields] at hmem
    obtain ⟨record, hrecord, rfl⟩ := List.mem_map.1 hmem
    exact Record.hasDistinctKeys_project (hrecords record hrecord) fields

end Query
end TableNotation
