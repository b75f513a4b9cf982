import TableNotation.Proofs.Document.RoundTrip
import TableNotation.Proofs.Table.Renaming
/-!
# Settings leave no trace

What comes back of a document does not depend on the dictionary in front of it: different
texts have different references, so the tables that are written have the same defaults as
the tables of the document, with references in place of texts, and the references are looked up
again.  What is left of the settings is whether there are defaults.  Without defaults the
normal form of the document comes back.  With defaults the value of a field may be that of
another record, but only if it is the same; and this cannot be seen unless one of the two is
a negative zero.

* `Document.restored`: what comes back, with or without defaults.
* `Encoding.readBack_eq`: it depends on nothing else.
* `restored_false`, `restored_of_positiveZeros`: when it is the normal form.
* `decode_encode_options`: two settings, and what comes back under each of them.
* `decode_encode_negative_zero`: a document for which the defaults can be seen.
-/

namespace TableNotation

/-- What comes back of a table: for each record the one that its row holds. -/
def Table.restored (optimize : Bool) (table : Table) : String × Value :=
  (table.name, .array (table.records.map fun record =>
    .object (Row.restored (table.layout optimize) record)))

/-- What comes back of a document. -/
def Document.restored (optimize : Bool) (document : Document) : Document :=
  document.tables.map (Table.restored optimize)

/-! ### The dictionary -/

/-- The texts of a record are among those of the document. -/
theorem Document.hasTextsIn_of_mem_tables {document : Document} {table : Table}
    (htable : table ∈ document.tables) :
    ∀ record ∈ table.records, (Value.object record).HasTextsIn {s | s ∈ document.strings} := by
  obtain ⟨items, hmem, hobjects⟩ := exists_mem_of_mem_tables htable
  intro record hrecord s hs
  have hitem := Value.strings_subset_of_mem_items (hobjects record hrecord) hs
  exact Value.strings_subset_of_mem hmem hitem

/-- A table that is written with references comes back like one that is not. -/
theorem Table.entry_mapStrings {settings : Settings} {writer : Dictionary} {f : String → String}
    {texts : Set String} {table : Table} (hwriter : Set.LeftInvOn writer.resolveString f texts)
    (h : ∀ record ∈ table.records, (Value.object record).HasTextsIn texts) :
    (table.mapStrings f).entry settings writer = table.restored settings.optimize := by
  unfold entry restored
  refine congrArg (fun items => (table.name, Value.array items)) ?_
  unfold mapStrings
  rw [List.map_map]
  apply List.map_congr_left
  intro record hrecord
  exact congrArg Value.object
    (Row.mapFields_restored_of_leftInvOn settings.optimize hwriter h hrecord)

/-- What comes back depends on the settings only in whether there are defaults. -/
theorem Encoding.readBack_eq (settings : Settings) (compress : Bool) (document : Document) :
    readBack settings compress document = document.restored settings.optimize := by
  obtain ⟨hserves, hdocument⟩ := @serves_writer settings compress document
  have hwritten : written settings compress document
      = document.tables.map
        (Table.mapStrings (writer settings compress document).abbreviateString) := by
    unfold written
    rw [hdocument, Dictionary.abbreviate, Document.tables_mapFields]
  unfold readBack Document.restored
  rw [hwritten, List.map_map]
  apply List.map_congr_left
  intro table htable
  apply Table.entry_mapStrings _ (Document.hasTextsIn_of_mem_tables htable)
  exact fun s hs => hserves.resolveString_abbreviateString hs

/-! ### The defaults -/

namespace Row

variable {records : List Record}

/-- Without defaults every value is shown. -/
theorem restored_eq_project {layout : Layout} (hdefaults : layout.defaults = .empty)
    (hnames : (layout.schema.map Prod.fst).Nodup) (record : Record) :
    restored layout record = Record.project (layout.schema.map Prod.fst) record := by
  have hshown : ∀ name, shown layout record name = Fields.getOrNull name record := by
    intro name
    unfold shown
    rw [hdefaults]
    rfl
  rw [Record.project_eq_map hnames, List.map_map]
  unfold restored
  cases layout.schema with
  | nil => rfl
  | cons first rest =>
    simp only [hshown, ite_self]
    rfl

/-- If no record has a negative zero, every value that is shown is the one of the record. -/
theorem restored_of_positiveZeros {optimize : Bool} {record : Record}
    (hnames : (Fields.keys (records.headD [])).Nodup)
    (h : ∀ record ∈ records, Value.fieldsPositiveZeros record = record)
    (hrecord : record ∈ records) :
    restored (Layout.infer optimize records) record
      = Record.project (Fields.keys (records.headD [])) record := by
  have hself : Value.fieldsPositiveZeros (restored (Layout.infer optimize records) record)
      = restored (Layout.infer optimize records) record := by
    rw [Value.fieldsPositiveZeros_eq_self_iff]
    intro e he
    obtain ⟨source, hsource, hvalue⟩ := exists_of_mem_restored hrecord he
    rw [hvalue]
    exact Value.positiveZeros_getOrNull (h source hsource) e.1
  have hscalar := fun name v => @Layout.isScalar_of_get?_infer optimize records name v
  rw [← hself, fieldsPositiveZeros_restored hscalar, Layout.names_infer,
    Record.project_eq_map hnames]
  apply List.map_congr_left
  intro name _
  rw [Value.positiveZeros_getOrNull (h record hrecord)]

end Row

variable {document : Document}

/-- A table comes back in its normal form if there are no defaults. -/
theorem Table.restored_false {table : Table} (h : table.IsReadable) :
    table.restored false = table.normalForm := by
  have hdefaults : (table.layout false).defaults = .empty := by
    unfold layout
    cases table.records <;> rfl
  have hnames : (table.layout false).schema.map Prod.fst = Fields.keys (table.records.headD []) :=
    Layout.names_infer false table.records
  unfold restored normalForm
  refine congrArg (fun items => (table.name, Value.array items)) ?_
  apply List.map_congr_left
  intro record _
  rw [← hnames]
  exact congrArg Value.object
    (Row.restored_eq_project hdefaults (hnames ▸ h.nodup_keys_headD) record)

/-- It also does if there are no negative zeros. -/
theorem Table.restored_of_positiveZeros {table : Table} (hreadable : table.IsReadable)
    (h : ∀ record ∈ table.records, Value.fieldsPositiveZeros record = record) (optimize : Bool) :
    table.restored optimize = table.normalForm := by
  unfold restored normalForm
  refine congrArg (fun items => (table.name, Value.array items)) ?_
  apply List.map_congr_left
  intro record hrecord
  exact congrArg Value.object
    (Row.restored_of_positiveZeros hreadable.nodup_keys_headD h hrecord)

namespace Document

theorem restored_false (h : document.IsReadable) :
    document.restored false = document.normalForm := by
  apply List.map_congr_left
  intro table htable
  exact Table.restored_false (h.of_mem_tables htable)

theorem restored_of_positiveZeros (h : document.IsReadable)
    (hzeros : Value.fieldsPositiveZeros document = document) (optimize : Bool) :
    document.restored optimize = document.normalForm := by
  apply List.map_congr_left
  intro table htable
  obtain ⟨items, hmem, hobjects⟩ := exists_mem_of_mem_tables htable
  have hitems : Value.itemsPositiveZeros items = items :=
    Value.array.inj (Value.fieldsPositiveZeros_eq_self_iff.1 hzeros _ hmem)
  apply Table.restored_of_positiveZeros (h.of_mem_tables htable)
  intro record hrecord
  have hrecord := Value.itemsPositiveZeros_eq_self_iff.1 hitems _ (hobjects record hrecord)
  exact Value.object.inj hrecord

end Document

/-- What comes back of the text of a document. -/
theorem Encoding.decode_lines (h : document.IsReadable) (settings : Settings) (compress : Bool) :
    decode (String.ofList (Text.joined ['\n'] (lines settings compress document)))
      = .ok (document.restored settings.optimize) := by
  rw [decode, String.toList_ofList, decodeChars_lines h, readBack_eq]

/-- A document of tables is written under all settings and comes back under all settings, the
same but for the signs of zeros.  The signs are the same too if both settings have defaults
or both have none, and whenever the document has no negative zero; without defaults the
normal form comes back with all its signs. -/
theorem decode_encode_options (h : document.IsReadable) (hvalid : document.validate = .ok ())
    (settings settings' : Settings) (compress compress' : Bool) :
    ∃ text text' back back', encode settings compress document = .ok text ∧
      encode settings' compress' document = .ok text' ∧
      decode text = .ok back ∧ decode text' = .ok back' ∧
      Value.fieldsPositiveZeros back = Value.fieldsPositiveZeros back' ∧
      (settings.optimize = settings'.optimize → back = back') ∧
      (Value.fieldsPositiveZeros document = document → back = back') ∧
      (settings.optimize = false → back = document.normalForm) := by
  have hzeros : ∀ settings : Settings,
      Value.fieldsPositiveZeros (document.restored settings.optimize)
        = Value.fieldsPositiveZeros document.normalForm := by
    intro settings
    rw [← Encoding.readBack_eq settings true]
    exact Encoding.fieldsPositiveZeros_readBack h settings true
  refine ⟨_, _, document.restored settings.optimize, document.restored settings'.optimize,
    encode_of_validate hvalid settings compress, encode_of_validate hvalid settings' compress',
    Encoding.decode_lines h settings compress, Encoding.decode_lines h settings' compress',
    ?_, ?_, ?_, ?_⟩
  · rw [hzeros settings, hzeros settings']
  · exact fun hoptimize => congrArg document.restored hoptimize
  · intro hpositive
    rw [Document.restored_of_positiveZeros h hpositive,
      Document.restored_of_positiveZeros h hpositive]
  · intro hoptimize
    rw [hoptimize, Document.restored_false h]

/-- Settings with all that they can add to a text, and settings with none of it. -/
theorem decode_encode_options_sample :
    let rich : Settings := { Settings.standard with mode := .ultra, queryable := true }
    let plain : Settings := { Settings.standard with optimize := false }
    Document.sample.IsReadable ∧ Document.sample.validate = .ok () ∧
      ∃ text text' back back', encode plain false Document.sample = .ok text ∧
        encode rich true Document.sample = .ok text' ∧
        decode text = .ok back ∧ decode text' = .ok back' ∧
        Value.fieldsPositiveZeros back = Value.fieldsPositiveZeros back' ∧
        back = Document.sample.normalForm := by
  intro rich plain
  have hreadable : Document.sample.IsReadable := by decide
  obtain ⟨text, text', back, back', hencode, hencode', hdecode, hdecode', hzeros, _, _, hplain⟩ :=
    decode_encode_options hreadable rfl plain rich false true
  exact ⟨hreadable, rfl, text, text', back, back', hencode, hencode', hdecode, hdecode',
    hzeros, hplain rfl⟩

/-- The third record has a negative zero, which the default takes away. -/
theorem decode_encode_negative_zero :
    let zero : Bool → Value := fun negative => .number (.float (.zero negative))
    let document : Document :=
      [("t", .array [.object [("id", .number (.integer 1 (by decide))), ("x", zero false)],
        .object [("id", .number (.integer 2 (by decide))), ("x", zero false)],
        .object [("id", .number (.integer 3 (by decide))), ("x", zero true)]])]
    let plain : Settings := { Settings.standard with optimize := false }
    document.IsReadable ∧ document.validate = .ok () ∧
      ∃ text text' back back', encode .standard true document = .ok text ∧
        encode plain true document = .ok text' ∧ decode text = .ok back ∧
        decode text' = .ok back' ∧ Json.compact (.object back) ≠ Json.compact (.object back') := by
  intro zero document plain
  have hreadable : document.IsReadable := by decide
  have hne : Json.compact (.object (document.restored Settings.standard.optimize))
      ≠ Json.compact (.object (document.restored plain.optimize)) := by
    decide +kernel
  exact ⟨hreadable, rfl, _, _, _, _, encode_of_validate rfl .standard true,
    encode_of_validate rfl plain true, Encoding.decode_lines hreadable .standard true,
    Encoding.decode_lines hreadable plain true, hne⟩

end TableNotation
