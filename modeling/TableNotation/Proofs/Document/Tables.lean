import TableNotation.Proofs.Compression.Lossless
import TableNotation.Proofs.Document.Reading
import TableNotation.Proofs.Text.Lines
import TableNotation.Proofs.Value.Objects
/-!
# The tables of a document

What is written of a document are its tables: the entries that are lists, and of these
the items that are records.  Each table is a lead of quiet lines, a header and the
rows; read from any state outside tables, whatever directives are in force there, it
adds itself to the document that was read so far.  So the text of a document is read
as the document laid over what came before it.

* `Document.IsReadable`: what has to hold of a document.
* `reads_table`, `reads_lines`: a table, and a document, read from any state.
* `decodeChars_lines`: the text of a document is read.
-/

namespace TableNotation

/-- A table of a document: its name and its records. -/
structure Table where
  name : String
  records : List Record

/-- The tables of a document.  What is no list is left out, and so is what is no record
in a list. -/
def Document.tables (document : Document) : List Table :=
  document.filterMap fun
    | (name, .array items) => some ⟨name, items.filterMap Value.asObject?⟩
    | _ => none

/-- A list is accepted as a table if its items are the objects of records. -/
theorem Value.recordsOf_eq_ok_iff {name : String} {items : List Value} {records : List Record} :
    recordsOf name items = .ok records ↔ items = records.map .object :=
  mapError_eq_ok.trans recordsFrom_eq_ok_iff

/-- A document of one table of records is accepted. -/
theorem Document.validate_table (name : String) (records : List Record) :
    validate [(name, .array (records.map .object))] = .ok () := by
  have hrecords : Value.recordsOf name (records.map .object) = .ok records :=
    Value.recordsOf_eq_ok_iff.2 rfl
  rw [validate, hrecords]
  rfl

/-- The records among the objects of records are these records. -/
theorem filterMap_asObject?_map_object (records : List Record) :
    (records.map Value.object).filterMap Value.asObject? = records := by
  rw [List.filterMap_map]
  exact List.filterMap_some

namespace Table

/-- What has to hold of a table so that it can be read back: its name can be read from a
header, its rows can be counted, and its records are objects. -/
structure IsReadable (table : Table) : Prop where
  name : Header.isReadable table.name.toList = true
  count : table.records.length < Header.countLimit
  distinct : ∀ record ∈ table.records, (Value.object record).hasDistinctKeys

/-- The table with each text in it replaced. -/
def mapStrings (f : String → String) (table : Table) : Table :=
  ⟨table.name, table.records.map (Value.mapFields f)⟩

/-- The header over all rows of a table. -/
def header (table : Table) : Header := ⟨table.name, table.records.length, false⟩

/-- The layout of a table. -/
def layout (optimize : Bool) (table : Table) : Layout := Layout.infer optimize table.records

/-- The lines in front of the header of a table. -/
def leadLines (settings : Settings) (writer : Dictionary) (table : Table) : List (List Char) :=
  Encoding.layoutLines writer (table.layout settings.optimize)
    ++ ((if settings.queryable then [Directive.queryable table.name] else []) ++ [[]])

/-- The header of a table and its rows. -/
def blockLines (settings : Settings) (writer : Dictionary) (table : Table) : List (List Char) :=
  table.header.render :: Encoding.rowLines writer (table.layout settings.optimize) table.records

/-- The lines of a table. -/
def lines (settings : Settings) (writer : Dictionary) (table : Table) : List (List Char) :=
  table.leadLines settings writer ++ table.blockLines settings writer

theorem lines_eq (settings : Settings) (writer : Dictionary) (table : Table) :
    Encoding.tableLines settings writer table.name table.records
      = table.lines settings writer := by
  simp only [Encoding.tableLines, lines, leadLines, List.append_assoc, List.singleton_append]
  rfl

/-- The entry that a reader of a table finds, who looks up references like the writer. -/
def entry (settings : Settings) (writer : Dictionary) (table : Table) : String × Value :=
  (table.name, .array (table.records.map fun record =>
    .object (Row.readBack writer (table.layout settings.optimize) record)))

variable {settings : Settings} {writer : Dictionary} {table : Table}

theorem IsReadable.mapStrings (h : table.IsReadable) (f : String → String) :
    (table.mapStrings f).IsReadable := by
  refine ⟨h.name, ?_, ?_⟩
  · simpa [Table.mapStrings] using h.count
  · intro record hrecord
    obtain ⟨original, horiginal, rfl⟩ := List.mem_map.1 hrecord
    exact Value.hasDistinctKeys_mapStrings f _ (h.distinct original horiginal)

theorem IsReadable.nodup_names (h : table.IsReadable) (optimize : Bool) :
    ((table.layout optimize).schema.map Prod.fst).Nodup := by
  rw [layout, Layout.names_infer]
  cases hrecords : table.records with
  | nil => exact List.nodup_nil
  | cons first rest =>
    have hfirst : first ∈ table.records := by
      rw [hrecords]
      exact List.mem_cons_self
    exact (h.distinct first hfirst).1

/-- Behind its lead a table can be read. -/
theorem IsReadable.follows (h : table.IsReadable) (hd : writer.HasReferences)
    {reader : Dictionary} (hr : writer.reread reader = writer.resolveString) (optimize : Bool) :
    Scan.Follows ⟨reader, (table.layout optimize).reread writer reader⟩ writer
      (table.layout optimize) :=
  ⟨hd, hr, rfl, h.nodup_names optimize⟩

theorem IsReadable.isLine_queryable (h : table.IsReadable) :
    Directive.IsLine (Directive.queryable table.name) := by
  apply Directive.isLine_line (by decide) (by decide)
  intro hmem
  have hchar := (Header.isReadable_iff.1 h.name).2.1 _ hmem
  exact absurd hchar (by decide)

theorem isQuiet_of_mem_leadLines (h : table.IsReadable) (hd : writer.HasReferences)
    {line : List Char} (hline : line ∈ table.leadLines settings writer) :
    Scan.IsQuiet line := by
  rcases List.mem_append.1 hline with hline | hline
  · exact Scan.isQuiet_of_mem_layoutLines hd (Layout.haveDistinctKeys_infer _ _) hline
  rcases List.mem_append.1 hline with hline | hline
  · split at hline
    · rw [List.mem_singleton.1 hline]
      exact .inr ⟨h.isLine_queryable, fun directives =>
        ⟨_, fun number => Directives.apply_queryable directives number table.name⟩⟩
    · exact absurd hline List.not_mem_nil
  · exact .inl (List.mem_singleton.1 hline)

/-- The lead of a table puts its layout in force. -/
theorem reads_leadLines (h : table.IsReadable) (hd : writer.HasReferences) (reader : Dictionary)
    (before : Layout) (document : Document) :
    Scan.Reads ⟨⟨reader, before⟩, document, none⟩ (table.leadLines settings writer)
      ⟨⟨reader, (table.layout settings.optimize).reread writer reader⟩, document, none⟩ := by
  have hlayout := @Scan.reads_layout document writer (table.layout settings.optimize) hd
    (Layout.haveDistinctKeys_infer _ _) reader before
  apply hlayout.append
  by_cases hqueryable : settings.queryable = true
  · rw [if_pos hqueryable]
    exact Scan.Reads.append (Scan.reads_directive h.isLine_queryable fun number =>
      Directives.apply_queryable _ number table.name) Scan.reads_blank
  · rw [if_neg hqueryable]
    exact Scan.reads_blank

/-- A table that is read from any state outside tables is added to the document. -/
theorem reads_lines (h : table.IsReadable) (hd : writer.HasReferences) {reader : Dictionary}
    (hr : writer.reread reader = writer.resolveString) (before : Layout) (document : Document) :
    Scan.Reads ⟨⟨reader, before⟩, document, none⟩ (table.lines settings writer)
      ⟨⟨reader, (table.layout settings.optimize).reread writer reader⟩,
        document.insert table.name (table.entry settings writer).2, none⟩ := by
  apply (reads_leadLines h hd reader before document).append
  exact Scan.reads_block (h.follows hd hr settings.optimize) h.name h.count
    (fun record hrecord => (h.distinct record hrecord).2) rfl

/-- Tables that are read from any state outside tables are laid over the document. -/
theorem reads_flatMap_lines {tables : List Table} (h : ∀ table ∈ tables, table.IsReadable)
    (hd : writer.HasReferences) {reader : Dictionary}
    (hr : writer.reread reader = writer.resolveString) (before : Layout) (document : Document) :
    ∃ after, Scan.Reads ⟨⟨reader, before⟩, document, none⟩
      (tables.flatMap (lines settings writer))
      ⟨⟨reader, after⟩, document.overlay (tables.map (entry settings writer)), none⟩ := by
  induction tables generalizing before document with
  | nil => exact ⟨before, Scan.Reads.nil⟩
  | cons table rest ih =>
    obtain ⟨htable, hrest⟩ := List.forall_mem_cons.1 h
    obtain ⟨after, hafter⟩ := ih hrest ((table.layout settings.optimize).reread writer reader)
      (document.insert table.name (table.entry settings writer).2)
    exact ⟨after, (reads_lines htable hd hr before document).append hafter⟩

/-- No line of a table has a line feed in it. -/
theorem newline_not_mem_of_mem_lines (h : table.IsReadable) (hd : writer.HasReferences)
    {line : List Char} (hline : line ∈ table.lines settings writer) : '\n' ∉ line := by
  rcases List.mem_append.1 hline with hline | hline
  · exact (isQuiet_of_mem_leadLines h hd hline).oneLine
  rcases List.mem_cons.1 hline with rfl | hline
  · exact Header.newline_not_mem_render h.name
  · exact Row.newline_not_mem_of_mem_rowLines hd hline

end Table

/-- What has to hold of a document so that its text can be read back: its objects are
objects, the names of its lists can be read from headers, and no list is longer than a
count can say. -/
structure Document.IsReadable (document : Document) : Prop where
  distinct : (Value.object document).hasDistinctKeys
  names : ∀ name items, (name, Value.array items) ∈ document →
    Header.isReadable name.toList = true
  counts : ∀ name items, (name, Value.array items) ∈ document →
    items.length < Header.countLimit

namespace Document

/-- What has to hold of an entry: the name of a list can be read, and its items can be
counted. -/
def IsReadableEntry : String × Value → Prop
  | (name, .array items) =>
    Header.isReadable name.toList = true ∧ items.length < Header.countLimit
  | _ => True

instance (e : String × Value) : Decidable (IsReadableEntry e) :=
  match e with
  | (_, .array _) => inferInstanceAs (Decidable (_ ∧ _))
  | (_, .null) | (_, .bool _) | (_, .number _) | (_, .string _) | (_, .object _) => isTrue trivial

/-- It is enough to look at each entry. -/
theorem isReadable_iff (document : Document) : document.IsReadable ↔
    (Value.object document).hasDistinctKeys ∧ ∀ e ∈ document, IsReadableEntry e := by
  constructor
  · intro h
    refine ⟨h.distinct, ?_⟩
    rintro ⟨name, v⟩ hmem
    cases v with
    | array items => exact ⟨h.names name items hmem, h.counts name items hmem⟩
    | _ => trivial
  · rintro ⟨hdistinct, hentries⟩
    exact ⟨hdistinct, fun _ _ hmem => (hentries _ hmem).1, fun _ _ hmem => (hentries _ hmem).2⟩

instance (document : Document) : Decidable document.IsReadable :=
  decidable_of_iff _ (isReadable_iff document).symm

/-- Records with a text that goes into a dictionary beside one that looks like a reference,
a zero that is left out for the other one, a missing field and one too many. -/
def sampleRecords : List Record :=
  [[("level", .string "warning"), ("load", .number (.float (.zero false))),
      ("tag", .string "#0"), ("path", .array [.string "a, b", .null])],
    [("load", .number (.float (.zero true))), ("level", .string "warning")],
    [("level", .string "warning"), ("load", .number (.float (.zero false))),
      ("tag", .string "#0"), ("more", .bool true)]]

/-- A document with these records, a table without rows and a record without fields. -/
def sample : Document :=
  [("log", .array (sampleRecords.map .object)), ("none", .array []), ("bare", .array [.object []])]

variable {document : Document}

theorem mem_tables {table : Table} (h : table ∈ document.tables) : ∃ items,
    (table.name, Value.array items) ∈ document ∧
      table.records = items.filterMap Value.asObject? := by
  obtain ⟨⟨name, v⟩, hmem, htable⟩ := List.mem_filterMap.1 h
  cases v with
  | array items =>
    obtain rfl := Option.some.inj htable
    exact ⟨items, hmem, rfl⟩
  | _ => exact absurd htable (by simp)

/-- The records of a table are objects in a list of the document. -/
theorem exists_mem_of_mem_tables {table : Table} (h : table ∈ document.tables) :
    ∃ items, (table.name, Value.array items) ∈ document ∧
      ∀ record ∈ table.records, Value.object record ∈ items := by
  obtain ⟨items, hmem, hrecords⟩ := mem_tables h
  refine ⟨items, hmem, ?_⟩
  intro record hrecord
  rw [hrecords] at hrecord
  obtain ⟨v, hv, hobject⟩ := List.mem_filterMap.1 hrecord
  cases v with
  | object fields =>
    obtain rfl := Option.some.inj hobject
    exact hv
  | _ => exact absurd hobject (by simp [Value.asObject?])

theorem IsReadable.of_mem_tables (h : document.IsReadable) {table : Table}
    (htable : table ∈ document.tables) : table.IsReadable := by
  obtain ⟨items, hmem, hrecords⟩ := mem_tables htable
  refine ⟨h.names _ _ hmem, ?_, ?_⟩
  · rw [hrecords]
    exact Nat.lt_of_le_of_lt (List.length_filterMap_le _ _) (h.counts _ _ hmem)
  · obtain ⟨items, hmem, hobjects⟩ := exists_mem_of_mem_tables htable
    have hitems : (Value.array items).hasDistinctKeys :=
      Value.hasDistinctKeys_of_mem_fields h.distinct.2 hmem
    exact fun record hrecord => Value.hasDistinctKeys_of_mem hitems (hobjects record hrecord)

/-- The names of the tables are among those of the document, in order. -/
theorem names_tables_sublist (document : Document) :
    (document.tables.map Table.name).Sublist (Fields.keys document) := by
  induction document with
  | nil => exact List.nil_sublist _
  | cons head rest ih =>
    obtain ⟨name, v⟩ := head
    cases v with
    | array items => exact ih.cons_cons name
    | _ => exact ih.cons name

theorem filterMap_asObject?_mapItems (f : String → String) (items : List Value) :
    (Value.mapItems f items).filterMap Value.asObject?
      = (items.filterMap Value.asObject?).map (Value.mapFields f) := by
  induction items with
  | nil => rfl
  | cons v rest ih =>
    rw [Value.mapItems]
    cases v with
    | object fields => exact congrArg (Value.mapFields f fields :: ·) ih
    | _ => exact ih

/-- The tables can be taken before or after texts are replaced. -/
theorem tables_mapFields (f : String → String) (document : Document) :
    tables (Value.mapFields f document) = document.tables.map (Table.mapStrings f) := by
  induction document with
  | nil => rfl
  | cons head rest ih =>
    obtain ⟨name, v⟩ := head
    rw [Value.mapFields]
    cases v with
    | array items =>
      have htable := congrArg (Table.mk name) (filterMap_asObject?_mapItems f items)
      exact List.cons_eq_cons.2 ⟨htable, ih⟩
    | _ => exact ih

end Document

namespace Encoding

theorem tablesLines_eq (settings : Settings) (writer : Dictionary) (document : Document) :
    tablesLines settings writer document
      = document.tables.flatMap (Table.lines settings writer) := by
  induction document with
  | nil => rfl
  | cons head rest ih =>
    obtain ⟨name, v⟩ := head
    unfold tablesLines at ih
    unfold tablesLines
    rw [List.flatMap_cons, ih]
    cases v with
    | array items =>
      have hlines := Table.lines_eq settings writer ⟨name, items.filterMap Value.asObject?⟩
      exact congrArg (· ++ (Document.tables rest).flatMap (Table.lines settings writer)) hlines
    | _ => rfl

/-- The dictionary that stands in front of the tables. -/
def writer (settings : Settings) (compress : Bool) (document : Document) : Dictionary :=
  (compressed settings compress document).2

/-- The tables as they are written, with references. -/
def written (settings : Settings) (compress : Bool) (document : Document) : List Table :=
  (compressed settings compress document).1.tables

/-- The document that a reader finds in the text of a document. -/
def readBack (settings : Settings) (compress : Bool) (document : Document) : Document :=
  (written settings compress document).map
    (Table.entry settings (writer settings compress document))

variable {settings : Settings} {compress : Bool} {document : Document}

/-- Whatever the settings are, the document that is written has been abbreviated by the
dictionary in front, and this one serves it. -/
theorem serves_writer :
    (writer settings compress document).Serves settings.thresholds document ∧
      (compressed settings compress document).1
        = (writer settings compress document).abbreviate document := by
  unfold writer compressed
  split
  · obtain ⟨dictionary, hserves, hdocument, hdictionary⟩ :=
      Compression.run_eq settings.thresholds settings.mode document
    simp only
    rw [hdictionary]
    exact ⟨hserves, hdocument⟩
  · exact ⟨.inr rfl, (Dictionary.abbreviate_empty document).symm⟩

theorem hasReferences_writer : (writer settings compress document).HasReferences :=
  serves_writer.1.hasReferences

theorem lines_eq : lines settings compress document
    = dictionaryLines (writer settings compress document)
      ++ (written settings compress document).flatMap
        (Table.lines settings (writer settings compress document)) := by
  unfold written
  rw [← tablesLines_eq]
  rfl

/-- Resolving the references in what is written gives the tables of the document. -/
theorem map_resolve_written :
    (written settings compress document).map
        (Table.mapStrings (writer settings compress document).resolveString)
      = document.tables := by
  obtain ⟨hserves, hdocument⟩ := @serves_writer settings compress document
  unfold written
  rw [← Document.tables_mapFields, hdocument, Dictionary.resolve_abbreviate hserves]

theorem names_written : (written settings compress document).map Table.name
    = document.tables.map Table.name := by
  rw [← @map_resolve_written settings compress document, List.map_map]
  rfl

/-- What is written can be read back. -/
theorem isReadable_of_mem_written (h : document.IsReadable) {table : Table}
    (htable : table ∈ written settings compress document) : table.IsReadable := by
  unfold written at htable
  rw [serves_writer.2, Dictionary.abbreviate, Document.tables_mapFields] at htable
  obtain ⟨original, horiginal, rfl⟩ := List.mem_map.1 htable
  exact (h.of_mem_tables horiginal).mapStrings _

theorem isQuiet_of_mem_dictionaryLines {writer : Dictionary} (hd : writer.HasReferences)
    {line : List Char} (h : line ∈ dictionaryLines writer) : Scan.IsQuiet line := by
  unfold dictionaryLines at h
  split at h
  · exact absurd h List.not_mem_nil
  rcases List.mem_cons.1 h with rfl | h
  · exact .inr ⟨Directive.isLine_dictionary hd, fun directives =>
      ⟨_, fun number => Directives.apply_dictionary directives number hd⟩⟩
  · exact .inl (List.mem_singleton.1 h)

/-- Behind the dictionary lines a reader looks up references like the writer: either the
dictionary has been replaced, or the writer has no references. -/
theorem reads_dictionaryLines {writer : Dictionary} (hd : writer.HasReferences)
    (directives : Directives) (document : Document) : ∃ reader layout,
      writer.reread reader = writer.resolveString ∧
        Scan.Reads ⟨directives, document, none⟩ (dictionaryLines writer)
          ⟨⟨reader, layout⟩, document, none⟩ := by
  unfold dictionaryLines
  by_cases hempty : writer.isEmpty = true
  · rw [if_pos hempty]
    refine ⟨directives.dictionary, directives.layout, ?_, Scan.Reads.nil⟩
    rw [SortedMap.eq_empty_of_isEmpty hempty, Dictionary.reread_empty]
    rfl
  · rw [if_neg hempty]
    refine ⟨writer, directives.layout, Dictionary.reread_self writer, ?_⟩
    exact Scan.Reads.append (Scan.reads_directive (Directive.isLine_dictionary hd) fun number =>
      Directives.apply_dictionary directives number hd) Scan.reads_blank

/-- The text of a document that is read from any state outside tables is laid over the
document that was read before. -/
theorem reads_lines (h : document.IsReadable) (directives : Directives) (before : Document) :
    ∃ after, Scan.Reads ⟨directives, before, none⟩ (lines settings compress document)
      ⟨after, before.overlay (readBack settings compress document), none⟩ := by
  have hd := @hasReferences_writer settings compress document
  obtain ⟨reader, layout, hr, hlead⟩ := reads_dictionaryLines hd directives before
  obtain ⟨after, hafter⟩ := @Table.reads_flatMap_lines settings _
    (written settings compress document) (fun _ htable => isReadable_of_mem_written h htable) hd
    reader hr layout before
  rw [lines_eq]
  exact ⟨⟨reader, after⟩, hlead.append hafter⟩

/-- No line has a line feed in it. -/
theorem newline_not_mem_of_mem_lines (h : document.IsReadable) {line : List Char}
    (hline : line ∈ lines settings compress document) : '\n' ∉ line := by
  have hd := @hasReferences_writer settings compress document
  rw [lines_eq] at hline
  rcases List.mem_append.1 hline with hline | hline
  · exact (isQuiet_of_mem_dictionaryLines hd hline).oneLine
  · obtain ⟨table, htable, hline⟩ := List.mem_flatMap.1 hline
    exact Table.newline_not_mem_of_mem_lines (isReadable_of_mem_written h htable) hd hline

/-- The names of the tables that are read are all different. -/
theorem nodup_keys_readBack (h : document.IsReadable) :
    (Fields.keys (readBack settings compress document)).Nodup := by
  have hnames : Fields.keys (readBack settings compress document)
      = (written settings compress document).map Table.name := by
    rw [readBack, Fields.keys, List.map_map]
    rfl
  rw [hnames, names_written]
  exact (Document.names_tables_sublist document).nodup h.distinct.1

/-- The text of a document is read. -/
theorem decodeChars_lines (h : document.IsReadable) :
    decodeChars (Text.joined ['\n'] (lines settings compress document))
      = .ok (readBack settings compress document) := by
  obtain ⟨after, hafter⟩ := @reads_lines settings compress document h Directives.initial []
  rw [Fields.overlay_nil (nodup_keys_readBack h)] at hafter
  exact Scan.decodeChars_joined (fun _ hline => newline_not_mem_of_mem_lines h hline) hafter

end Encoding

theorem encode_of_validate {document : Document} (h : document.validate = .ok ())
    (settings : Settings) (compress : Bool) : encode settings compress document
      = .ok (String.ofList (Text.joined ['\n'] (Encoding.lines settings compress document))) := by
  unfold encode encodeChars
  rw [h]
  cases settings.validate <;> rfl

/-- A document that is encoded has the text of its lines. -/
theorem toList_of_encode {settings : Settings} {compress : Bool} {document : Document}
    {text : String} (h : encode settings compress document = .ok text) :
    text.toList = Text.joined ['\n'] (Encoding.lines settings compress document) := by
  unfold encode encodeChars at h
  cases hvalidate : settings.validate with
  | false =>
    rw [hvalidate] at h
    obtain rfl := Except.ok.inj h
    exact String.toList_ofList
  | true =>
    rw [hvalidate] at h
    cases hdocument : document.validate with
    | error e => rw [hdocument] at h; exact absurd h (by simp [bind, Except.bind, Except.map])
    | ok _ =>
      rw [hdocument] at h
      obtain rfl := Except.ok.inj h
      exact String.toList_ofList

end TableNotation
