import TableNotation.Proofs.Table.RowLine
import TableNotation.Proofs.Value.FieldOrder
/-!
# Rows of any layout

A layout need not come from the records of its table: its defaults can be any values, null, lists
and objects included, and it can have defaults for fields that are no columns.  A row is still
read back column by column, by a reader who has the same dictionary and the same layout, with the
references in its defaults resolved.  Each column holds the value of the record, or the default
that was the same, both resolved.  So a value can come back with other signs of its zeros, and an
object with its fields in the order of the default.

* `keys_restored`, `exists_get?_restored`: what a row holds, column by column.
* `columns_parse_render`: what a reader finds in it.
* `parse_render_reordered`: an object whose fields come back in another order.
-/

namespace TableNotation

/-- The layout with the references in its defaults resolved. -/
def Layout.resolve (dictionary : Dictionary) (layout : Layout) : Layout :=
  { layout with defaults := layout.defaults.mapValues dictionary.resolve }

/-- It is what a reader finds who has the writer's dictionary. -/
theorem Layout.reread_self (dictionary : Dictionary) (layout : Layout) :
    layout.reread dictionary dictionary = layout.resolve dictionary := by
  unfold reread resolve Defaults.reread
  rw [Dictionary.reread_self]
  rfl

namespace Row

variable {dictionary : Dictionary} {layout : Layout} {record : Record}

/-- What is shown in a column is the value, or a default that is the same. -/
theorem shown_cases (layout : Layout) (record : Record) (name : String) :
    shown layout record name = Fields.getOrNull name record ∨
      ∃ default, layout.defaults.get? name = some default ∧
        default.same (Fields.getOrNull name record) = true ∧
        shown layout record name = default := by
  unfold shown
  cases layout.defaults.get? name with
  | none => exact .inl rfl
  | some default =>
    by_cases hsame : default.same (Fields.getOrNull name record) = true
    · exact .inr ⟨default, rfl, hsame, if_pos hsame⟩
    · exact .inl (if_neg hsame)

/-- A row has the columns of its schema, in order. -/
theorem keys_restored (layout : Layout) (record : Record) :
    Fields.keys (restored layout record) = layout.schema.map Prod.fst := by
  unfold restored
  cases layout.schema with
  | nil => rfl
  | cons first rest =>
    rw [Fields.keys, List.map_cons, List.map_cons, List.map_map]
    rfl

/-- Each column holds the value of the record, or a default that is the same. -/
theorem exists_get?_restored {name : String} (hname : name ∈ layout.schema.map Prod.fst) :
    ∃ v, Fields.get? name (restored layout record) = some v ∧
      (v = Fields.getOrNull name record ∨ ∃ default, layout.defaults.get? name = some default ∧
        default.same (Fields.getOrNull name record) = true ∧ v = default) := by
  have hfound := Fields.get?_of_mem_keys (keys_restored layout record ▸ hname)
  refine ⟨_, hfound, ?_⟩
  have hmem := Fields.mem_of_get? hfound
  generalize Fields.getOrNull name (restored layout record) = v at hmem
  unfold restored at hmem
  cases hschema : layout.schema with
  | nil =>
    rw [hschema] at hmem
    exact absurd hmem List.not_mem_nil
  | cons first rest =>
    rw [hschema] at hmem
    rcases List.mem_cons.1 hmem with heq | hmem
    · obtain ⟨rfl, rfl⟩ := Prod.mk.inj heq
      split
      · exact .inl rfl
      · exact shown_cases layout record first.1
    · obtain ⟨column, _, heq⟩ := List.mem_map.1 hmem
      obtain ⟨rfl, rfl⟩ := Prod.mk.inj heq
      exact shown_cases layout record column.1

/-- A reader with the writer's dictionary finds the columns of the schema in order.  Each holds
the value of the record, null if it has none, with its references resolved, or the resolved
default that is the same; so at most the signs of zeros and the order of the fields of objects
differ, and the order does not if no object in the value has two fields. -/
theorem columns_parse_render (hd : dictionary.HasReferences)
    (hnames : (layout.schema.map Prod.fst).Nodup)
    (hrecord : Value.fieldsHaveDistinctKeys record) :
    Fields.keys (parse dictionary (layout.resolve dictionary) (render dictionary layout record))
        = layout.schema.map Prod.fst ∧
      ∀ name ∈ layout.schema.map Prod.fst, ∃ v,
        Fields.get? name (parse dictionary (layout.resolve dictionary)
          (render dictionary layout record)) = some v ∧
        v.same (dictionary.resolve (Fields.getOrNull name record)) = true ∧
        (v = dictionary.resolve (Fields.getOrNull name record) ∨
          ∃ default, layout.defaults.get? name = some default ∧
            default.same (Fields.getOrNull name record) = true ∧
            v = dictionary.resolve default) ∧
        ((Fields.getOrNull name record).hasSingleFields = true → v.positiveZeros
          = (dictionary.resolve (Fields.getOrNull name record)).positiveZeros) := by
  have hparse : parse dictionary (layout.resolve dictionary) (render dictionary layout record)
      = Value.mapFields dictionary.resolveString (restored layout record) := by
    rw [← Layout.reread_self, parse_render dictionary hd hnames hrecord, Dictionary.reread_self]
  rw [hparse, Value.keys_mapFields, keys_restored]
  refine ⟨rfl, fun name hname => ?_⟩
  have hdistinct := Value.hasDistinctKeys_getOrNull hrecord name
  obtain ⟨v, hfound, hv⟩ := @exists_get?_restored layout record name hname
  refine ⟨dictionary.resolve v, ?_, ?_⟩
  · rw [Value.get?_mapFields, hfound]
    rfl
  rcases hv with rfl | ⟨default, hdefault, hsame, rfl⟩
  · have hself := Value.same_self _ hdistinct
    exact ⟨Value.same_mapStrings_of_same _ _ _ hself, .inl rfl, fun _ => rfl⟩
  · refine ⟨Value.same_mapStrings_of_same _ _ _ hsame, .inr ⟨v, hdefault, hsame, rfl⟩, ?_⟩
    intro hsingle
    rw [Dictionary.resolve, Dictionary.resolve, Value.positiveZeros_mapStrings,
      Value.positiveZeros_mapStrings, Value.positiveZeros_eq_of_hasSingleFields _ _ hsingle hsame]

/-- A row that begins with two empty slots and leaves its last one out: the value of the first
column is another zero than the default, a list that is a default holds a reference, the last
column is missing, and one default belongs to no column. -/
theorem columns_parse_render_sample :
    let dictionary : Dictionary := SortedMap.ofList [("#0", "text")]
    let layout : Layout := ⟨[("a", .float), ("b", .array), ("c", .str), ("d", .null)],
      SortedMap.ofList [("a", .number (.float (.zero true))), ("b", .array [.string "#0"]),
        ("d", .null), ("e", .string "#0")]⟩
    let record : Record := [("c", .string "#0"), ("b", .array [.string "#0"]),
      ("a", .number (.float (.zero false)))]
    render dictionary layout record = [',', ' ', ',', ' ', '#', '0'] ∧
      Fields.keys (parse dictionary (layout.resolve dictionary) (render dictionary layout record))
        = ["a", "b", "c", "d"] ∧
      ∃ v, Fields.get? "b" (parse dictionary (layout.resolve dictionary)
          (render dictionary layout record)) = some v ∧
        v.positiveZeros = (dictionary.resolve (.array [.string "#0"])).positiveZeros := by
  intro dictionary layout record
  have hd : dictionary.HasReferences := Dictionary.hasReferences_of_mem (by decide +kernel)
  have hnames : (layout.schema.map Prod.fst).Nodup := by decide +kernel
  have hrecord : (Value.object record).hasDistinctKeys := by decide +kernel
  obtain ⟨hkeys, hcolumns⟩ := columns_parse_render hd hnames hrecord.2
  obtain ⟨v, hfound, _, _, hzeros⟩ := hcolumns "b" (by decide +kernel)
  exact ⟨by decide +kernel, hkeys, v, hfound, hzeros (by decide +kernel)⟩

/-- An object is the same as a default that has its fields in another order, so its slot is left
empty, and the reader finds the order of the default. -/
theorem parse_render_reordered :
    let layout : Layout := ⟨[("x", .object), ("y", .int)], SortedMap.ofList [("x",
      .object [("a", .number (.integer 1 (by decide))), ("b", .number (.integer 2 (by decide)))])]⟩
    let record : Record := [("x", .object [("b", .number (.integer 2 (by decide))),
      ("a", .number (.integer 1 (by decide)))]), ("y", .number (.integer 3 (by decide)))]
    ∃ v, Fields.get? "x" (parse .empty (layout.resolve .empty) (render .empty layout record))
        = some v ∧
      v.positiveZeros
        ≠ (Dictionary.resolve .empty (Fields.getOrNull "x" record)).positiveZeros := by
  intro layout record
  have hnames : (layout.schema.map Prod.fst).Nodup := by decide +kernel
  have hrecord : (Value.object record).hasDistinctKeys := by decide +kernel
  have hrestored : Fields.get? "x" (restored layout record) = some (.object
      [("a", .number (.integer 1 (by decide))), ("b", .number (.integer 2 (by decide)))]) := rfl
  refine ⟨.object [("a", .number (.integer 1 (by decide))), ("b", .number (.integer 2 (by decide)))],
    ?_, ?_⟩
  · rw [← Layout.reread_self, parse_render .empty Dictionary.hasReferences_empty hnames hrecord.2,
      Value.get?_mapFields, hrestored]
    rfl
  · intro heq
    have hkeys := congrArg (fun v => v.asObject?.map Fields.keys) heq
    have hother : some ["a", "b"] = some ["b", "a"] := hkeys
    exact absurd hother (by decide)

end Row
end TableNotation
