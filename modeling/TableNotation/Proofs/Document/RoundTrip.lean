import TableNotation.Proofs.Document.Tables
import TableNotation.Query.Execution
/-!
# Decoding undoes encoding

A document comes back from its text in a normal form: of its entries the lists are
left, of their items the records, and of each record the fields that the first record
of its table has, in that order, with null for a field that is missing.  Nothing else
is lost, whatever the settings are, except that a zero may come back with the sign of
the default that stood for it.

* `Document.normalForm`: what comes back.
* `Row.fieldsPositiveZeros_readBack`: a record is projected.
* `decode_encode`: a document is brought into its normal form.
-/

namespace TableNotation

/-- The entry of a table in which every record has the fields of the first one. -/
def Table.normalForm (table : Table) : String × Value :=
  (table.name, .array (table.records.map fun record =>
    .object (Record.project (Fields.keys (table.records.headD [])) record)))

/-- The document of its tables, in each of which all records have the fields of the
first one. -/
def Document.normalForm (document : Document) : Document :=
  document.tables.map Table.normalForm

/-- A projection on different fields lists them in order. -/
theorem Record.project_eq_map {fields : List String} (h : fields.Nodup) (record : Record) :
    Record.project fields record
      = fields.map fun field => (field, Fields.getOrNull field record) := by
  apply Fields.ofEntries_eq_self
  rw [Fields.keys, List.map_map]
  simpa [Function.comp_def] using h

namespace Row

variable {layout : Layout}

/-- A value that is shown is the one of the record, but for the signs of zeros. -/
theorem positiveZeros_shown
    (hscalar : ∀ name v, layout.defaults.get? name = some v → v.isScalar = true)
    (record : Record) (name : String) :
    (shown layout record name).positiveZeros = (Fields.getOrNull name record).positiveZeros := by
  unfold shown
  cases hdefault : layout.defaults.get? name with
  | none => rfl
  | some default =>
    by_cases hsame : default.same (Fields.getOrNull name record) = true
    · simp only [hsame, if_true]
      exact Value.positiveZeros_eq_of_same (hscalar name default hdefault) hsame
    · simp only [hsame, Bool.false_eq_true, if_false]

/-- A row holds the values of the columns, but for the signs of zeros. -/
theorem fieldsPositiveZeros_restored
    (hscalar : ∀ name v, layout.defaults.get? name = some v → v.isScalar = true)
    (record : Record) :
    Value.fieldsPositiveZeros (restored layout record)
      = (layout.schema.map Prod.fst).map fun name =>
        (name, (Fields.getOrNull name record).positiveZeros) := by
  have hshown := positiveZeros_shown hscalar record
  unfold restored
  cases layout.schema with
  | nil => rfl
  | cons first rest =>
    have hrest : Value.fieldsPositiveZeros
        (rest.map fun column => (column.1, shown layout record column.1))
        = (rest.map Prod.fst).map fun name =>
          (name, (Fields.getOrNull name record).positiveZeros) := by
      rw [Value.fieldsPositiveZeros_eq_map, List.map_map, List.map_map]
      apply List.map_congr_left
      intro column _
      exact congrArg (Prod.mk column.1) (hshown column.1)
    simp only [Value.fieldsPositiveZeros, List.map_cons, hrest]
    split
    · rfl
    · rw [hshown]

/-- What a reader finds in the row of a record is its projection on the columns, but for
the signs of zeros. -/
theorem fieldsPositiveZeros_readBack (optimize : Bool) {records : List Record}
    (hnames : (Fields.keys (records.headD [])).Nodup) (writer : Dictionary) (record : Record) :
    Value.fieldsPositiveZeros (readBack writer (Layout.infer optimize records) record)
      = Value.fieldsPositiveZeros (Record.project (Fields.keys (records.headD []))
        (Value.mapFields writer.resolveString record)) := by
  have hrestored := fieldsPositiveZeros_restored
    (fun _ _ => Layout.isScalar_of_get?_infer optimize records) record
  unfold readBack
  rw [Value.fieldsPositiveZeros_mapFields, hrestored, Layout.names_infer,
    Record.project_eq_map hnames, Value.fieldsPositiveZeros_eq_map, Value.mapFields_eq_map,
    List.map_map, List.map_map]
  apply List.map_congr_left
  intro name _
  simp only [Function.comp, Value.getOrNull_mapFields, Value.positiveZeros_mapStrings]

end Row

/-- The names of the columns are those of the first record, whatever its texts are. -/
theorem Table.keys_headD_mapStrings (f : String → String) (table : Table) :
    Fields.keys ((table.mapStrings f).records.headD [])
      = Fields.keys (table.records.headD []) := by
  unfold mapStrings
  cases table.records with
  | nil => rfl
  | cons first rest => exact Value.keys_mapFields f first

theorem Table.IsReadable.nodup_keys_headD {table : Table} (h : table.IsReadable) :
    (Fields.keys (table.records.headD [])).Nodup := by
  have hnames := h.nodup_names true
  rw [Table.layout, Layout.names_infer] at hnames
  exact hnames

/-- A table comes back in its normal form, with its references resolved. -/
theorem Table.positiveZeros_entry {table : Table} (h : table.IsReadable) (settings : Settings)
    (writer : Dictionary) :
    (table.entry settings writer).2.positiveZeros
      = (table.mapStrings writer.resolveString).normalForm.2.positiveZeros := by
  unfold entry normalForm
  rw [keys_headD_mapStrings]
  simp only [Value.positiveZeros, Value.itemsPositiveZeros_eq_map, mapStrings, List.map_map]
  congr 1
  apply List.map_congr_left
  intro record _
  exact congrArg Value.object
    (Row.fieldsPositiveZeros_readBack settings.optimize h.nodup_keys_headD writer record)

/-- What a reader finds is the normal form of the document. -/
theorem Encoding.fieldsPositiveZeros_readBack {document : Document} (h : document.IsReadable)
    (settings : Settings) (compress : Bool) :
    Value.fieldsPositiveZeros (readBack settings compress document)
      = Value.fieldsPositiveZeros document.normalForm := by
  unfold readBack Document.normalForm
  rw [← @map_resolve_written settings compress document]
  simp only [Value.fieldsPositiveZeros_eq_map, List.map_map]
  apply List.map_congr_left
  intro table htable
  exact congrArg (Prod.mk table.name)
    (Table.positiveZeros_entry (isReadable_of_mem_written h htable) settings _)

/-- Decoding the text of a document brings the document into its normal form, whatever the
settings are; only zeros may change their signs. -/
theorem decode_encode {settings : Settings} {compress : Bool} {document : Document}
    {text : String} (h : document.IsReadable)
    (hencode : encode settings compress document = .ok text) :
    ∃ back, decode text = .ok back ∧
      Value.fieldsPositiveZeros back = Value.fieldsPositiveZeros document.normalForm := by
  refine ⟨Encoding.readBack settings compress document, ?_,
    Encoding.fieldsPositiveZeros_readBack h settings compress⟩
  rw [decode, toList_of_encode hencode]
  exact Encoding.decodeChars_lines h

/-- A document with an entry that is no list and an item that is no record. -/
theorem decode_encode_mixed :
    let settings : Settings :=
      { Settings.standard with mode := .ultra, queryable := true, validate := false }
    let document : Document :=
      ("note", .string "#0")
        :: ("odd", .array [.null, .object [("(", .bool true)]]) :: Document.sample
    document.IsReadable ∧ ∃ text, encode settings true document = .ok text ∧
      ∃ back, decode text = .ok back ∧
        Value.fieldsPositiveZeros back = Value.fieldsPositiveZeros document.normalForm := by
  intro settings document
  have hreadable : document.IsReadable := by decide
  have hencode : encode settings true document
      = .ok (String.ofList (Text.joined ['\n'] (Encoding.lines settings true document))) := rfl
  exact ⟨hreadable, _, hencode, decode_encode hreadable hencode⟩

end TableNotation
