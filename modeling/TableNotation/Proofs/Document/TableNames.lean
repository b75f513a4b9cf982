import Mathlib
import TableNotation.Proofs.Document.RoundTrip
import TableNotation.Proofs.Success
import TableNotation.Proofs.Value.Sameness
/-!
# Which table names survive

The name of a table is written as it is, and no document is refused for it.  A reader
takes as a name only what cannot be anything else in a header, so every table of a
document that was read has a readable name, and no two have the same.  Conversely a
document of tables with readable names comes back.  So among documents of tables whose
records have the same fields, those that come back are exactly those with readable
names; with any other name, a text that can be read at all is read as another document.

* `Scan.IsNamed`: what holds of the names that a reader has met; `isNamed_take` and
  `isNamed_of_decode` say that it holds at each line and at the end.
* `Document.eq_map_tables`: a document that is validated is a list of tables.
* `decode_same_iff`: exactly readable names survive.
-/

namespace TableNotation

/-- A name that is read from a line without blanks around it can be read, unless the line
is a directive. -/
theorem Header.isReadable_of_read? {line : List Char} {header : Header}
    (htight : Text.IsTight line) (hhead : line.head? ≠ some '@')
    (h : read? line = some header) : isReadable header.name.toList = true := by
  rw [read?, Text.trim_eq_self htight] at h
  simp only at h
  split at h
  · cases h
  · rename_i hempty
    have hname : header.name.toList = line.takeWhile isNameChar := by
      obtain ⟨digits, _, rfl⟩ := Option.map_eq_some_iff.1 h
      exact String.toList_ofList
    rw [hname, isReadable_iff]
    refine ⟨fun hnil => hempty (by rw [hnil]; rfl), fun c hc => ?_, fun hat => hhead ?_⟩
    · exact List.all_eq_true.1 List.all_takeWhile c hc
    · rw [List.head?_takeWhile] at hat
      obtain ⟨hfirst, _⟩ := Option.filter_eq_some_iff.1 hat
      exact hfirst

namespace Scan

/-- The names that have been met can be read, and no two tables have one name. -/
structure IsNamed (scan : Scan) : Prop where
  names : ∀ name ∈ Fields.keys scan.document, Header.isReadable name.toList = true
  distinct : (Fields.keys scan.document).Nodup
  block : ∀ block, scan.block = some block → Header.isReadable block.header.name.toList = true

variable {scan next : Scan} {block : Block}

theorem isNamed_initial : initial.IsNamed :=
  ⟨fun _ h => absurd h List.not_mem_nil, List.nodup_nil, fun _ h => nomatch h⟩

/-- The names after a table has been added. -/
theorem keys_addTable (document : Document) (header : Header) (rows : List Value) :
    Fields.keys (addTable document header rows)
      = if header.name ∈ Fields.keys document then Fields.keys document
        else Fields.keys document ++ [header.name] :=
  Fields.keys_insert header.name _ document

/-- A table may be closed, or left open, if its name can be read. -/
theorem IsNamed.closeIfFull (h : scan.IsNamed)
    (hname : Header.isReadable block.header.name.toList = true) :
    (scan.closeIfFull block).IsNamed := by
  by_cases hopen : block.rows.length < block.header.count
  · rw [closeIfFull_of_lt hopen]
    refine ⟨h.names, h.distinct, fun _ hblock => ?_⟩
    obtain rfl := Option.some.inj hblock
    exact hname
  · rw [closeIfFull_of_le (Nat.le_of_not_lt hopen)]
    refine ⟨?_, ?_, fun _ hblock => nomatch hblock⟩
    · intro name hmem
      simp only [keys_addTable] at hmem
      split at hmem
      · exact h.names name hmem
      · rcases List.mem_append.1 hmem with hmem | hmem
        · exact h.names name hmem
        · rw [List.mem_singleton.1 hmem]
          exact hname
    · simp only [keys_addTable]
      split
      · exact h.distinct
      · rename_i hnew
        exact List.nodup_append.2 ⟨h.distinct, List.pairwise_singleton _ _, fun a ha b hb hab =>
          hnew (List.mem_singleton.1 hb ▸ hab ▸ ha)⟩

/-- A line outside tables opens no table whose name cannot be read. -/
theorem IsNamed.takeOutside (h : scan.IsNamed) {number : Nat} {line : List Char}
    (htight : Text.IsTight line) (htake : scan.takeOutside number line = .ok next) :
    next.IsNamed := by
  unfold Scan.takeOutside at htake
  split at htake
  · obtain ⟨directives, _, hnext⟩ := bind_eq_ok.1 htake
    obtain rfl := Except.ok.inj hnext
    exact ⟨h.names, h.distinct, h.block⟩
  · rename_i hhead
    split at htake
    · cases htake
    · rename_i header hheader
      split at htake
      · obtain rfl := Except.ok.inj htake
        exact h.closeIfFull (Header.isReadable_of_read? htight hhead hheader)
      · cases htake

/-- A line below a header adds a row at most. -/
theorem IsNamed.takeInside (h : scan.IsNamed)
    (hname : Header.isReadable block.header.name.toList = true) {line : List Char}
    (htake : scan.takeInside block line = .ok next) : next.IsNamed := by
  unfold Scan.takeInside at htake
  split at htake
  · cases htake
  · split at htake
    · obtain rfl := Except.ok.inj htake
      exact h
    · obtain rfl := Except.ok.inj htake
      exact h.closeIfFull hname

/-- Each line preserves what holds of the names. -/
theorem IsNamed.take (h : scan.IsNamed) {line : Nat × List Char} (htight : Text.IsTight line.2)
    (htake : scan.take line = .ok next) : next.IsNamed := by
  unfold Scan.take at htake
  split at htake
  · obtain rfl := Except.ok.inj htake
    exact h
  · split at htake
    · exact h.takeOutside htight htake
    · rename_i block hblock
      exact h.takeInside (h.block block hblock) htake

theorem isTight_of_mem_numberedLines {first : Nat} {lines : List (List Char)}
    {line : Nat × List Char} (h : line ∈ numberedLines first lines) : Text.IsTight line.2 := by
  induction lines generalizing first with
  | nil => exact absurd h List.not_mem_nil
  | cons line rest ih =>
    rcases List.mem_cons.1 h with rfl | h
    · exact Text.isTight_trim line
    · exact ih h

/-- The tables of a document that was read have readable names, no two the same. -/
theorem isNamed_of_decode {text : String} {document : Document}
    (h : decode text = .ok document) :
    (∀ name ∈ Fields.keys document, Header.isReadable name.toList = true) ∧
      (Fields.keys document).Nodup := by
  obtain ⟨last, hrun, hfinish⟩ := bind_eq_ok.1 h
  have hlast : last.IsNamed := foldlM_preserves
    (fun _ hline _ _ htake hnamed => hnamed.take (isTight_of_mem_numberedLines hline) htake)
    hrun isNamed_initial
  unfold finish at hfinish
  split at hfinish
  · obtain rfl := Except.ok.inj hfinish
    exact ⟨hlast.names, hlast.distinct⟩
  · cases hfinish

end Scan

/-- The entry of a document for a table. -/
def Table.toEntry (table : Table) : String × Value :=
  (table.name, .array (table.records.map .object))

/-- A document that is validated is a list of tables. -/
theorem Document.eq_map_tables {document : Document} (h : document.validate = .ok ()) :
    document = document.tables.map Table.toEntry := by
  induction document with
  | nil => rfl
  | cons head rest ih =>
    obtain ⟨name, v⟩ := head
    cases v with
    | array items =>
      obtain ⟨records, hrecords, hrest⟩ := bind_eq_ok.1 h
      obtain rfl := Value.recordsOf_eq_ok_iff.1 hrecords
      have htables : Document.tables ((name, .array (records.map .object)) :: rest)
          = ⟨name, records⟩ :: Document.tables rest :=
        congrArg (fun found => Table.mk name found :: Document.tables rest)
          (filterMap_asObject?_map_object records)
      rw [htables, List.map_cons, ← ih hrest]
      rfl
    | _ => cases h

/-- What has to hold of a document of tables: it is accepted, the rows of its tables can
be counted, and all records of a table have the same fields. -/
structure Document.IsTabular (document : Document) : Prop where
  distinct : (Value.object document).hasDistinctKeys
  accepted : document.validate = .ok ()
  counts : ∀ table ∈ document.tables, table.records.length < Header.countLimit
  uniform : ∀ table ∈ document.tables, ∀ r ∈ table.records, ∀ s ∈ table.records,
    ∀ key ∈ Fields.keys r, key ∈ Fields.keys s

/-- A record is the same as its projection on its own fields in any order. -/
theorem Record.same_project {fields : List String} {record : Record} (hfields : fields.Nodup)
    (hrecord : (Value.object record).hasDistinctKeys)
    (hkeys : ∀ key, key ∈ fields ↔ key ∈ Fields.keys record) :
    (Value.object (Record.project fields record)).same (.object record) = true := by
  have hlength : fields.length = record.length := by
    have hperm := (List.perm_ext_iff_of_nodup hfields hrecord.1).2 hkeys
    simpa [Fields.keys] using hperm.length_eq
  rw [project_eq_map hfields, Value.same, List.length_map, hlength, beq_self_eq_true,
    Bool.true_and, Value.sameFields_iff]
  intro e he
  obtain ⟨field, hfield, rfl⟩ := List.mem_map.1 he
  exact ⟨_, Fields.get?_of_mem_keys ((hkeys field).1 hfield),
    Value.same_self _ (Value.hasDistinctKeys_getOrNull hrecord.2 field)⟩

namespace Document.IsTabular

variable {document : Document} {table : Table}

theorem toEntry_mem (h : document.IsTabular) (htable : table ∈ document.tables) :
    table.toEntry ∈ document := by
  rw [eq_map_tables h.accepted]
  exact List.mem_map_of_mem htable

theorem distinct_record (h : document.IsTabular) (htable : table ∈ document.tables)
    {record : Record} (hrecord : record ∈ table.records) :
    (Value.object record).hasDistinctKeys := by
  have hitems : Value.itemsHaveDistinctKeys (table.records.map .object) :=
    Value.hasDistinctKeys_of_mem_fields h.distinct.2 (h.toEntry_mem htable)
  exact Value.hasDistinctKeys_of_mem hitems (List.mem_map_of_mem hrecord)

/-- A table is the same as its normal form. -/
theorem same_table (h : document.IsTabular) (htable : table ∈ document.tables) :
    table.normalForm.2.same table.toEntry.2 = true := by
  apply Value.sameItems_map
  intro record hrecord
  have hfirst : table.records.headD [] ∈ table.records := by
    cases hrecords : table.records with
    | nil => rw [hrecords] at hrecord; exact absurd hrecord List.not_mem_nil
    | cons first rest => exact List.mem_cons_self
  exact Record.same_project (h.distinct_record htable hfirst).1
    (h.distinct_record htable hrecord) fun key =>
    ⟨h.uniform table htable _ hfirst record hrecord key,
      h.uniform table htable record hrecord _ hfirst key⟩

/-- A document of tables is the same as its normal form. -/
theorem same_normalForm (h : document.IsTabular) :
    (Value.object document.normalForm).same (.object document) = true := by
  have hlength : document.normalForm.length = document.length := by
    have htables := congrArg List.length (eq_map_tables h.accepted)
    rw [htables, normalForm, List.length_map, List.length_map]
  rw [Value.same, hlength, beq_self_eq_true, Bool.true_and, Value.sameFields_iff]
  intro e he
  obtain ⟨table, htable, rfl⟩ := List.mem_map.1 he
  have hfound : Fields.get? table.name document = some table.toEntry.2 :=
    Fields.get?_of_mem h.distinct.1 (h.toEntry_mem htable)
  exact ⟨_, hfound, h.same_table htable⟩

/-- With readable names it can be read back. -/
theorem isReadable (h : document.IsTabular)
    (hnames : ∀ name ∈ Fields.keys document, Header.isReadable name.toList = true) :
    document.IsReadable := by
  refine ⟨h.distinct, fun name _ hmem => hnames name (List.mem_map.2 ⟨_, hmem, rfl⟩), ?_⟩
  intro name items hmem
  rw [eq_map_tables h.accepted] at hmem
  obtain ⟨table, htable, hentry⟩ := List.mem_map.1 hmem
  obtain ⟨_, hitems⟩ := Prod.mk.inj hentry
  rw [← Value.array.inj hitems, List.length_map]
  exact h.counts table htable

end Document.IsTabular

/-- If a document that was read is the same as another document, the names of that one are
readable too. -/
theorem names_readable_of_same {text : String} {back document : Document}
    (hdecode : decode text = .ok back)
    (hsame : (Value.object back).same (.object document) = true) :
    ∀ name ∈ Fields.keys document, Header.isReadable name.toList = true := by
  obtain ⟨hreadable, hdistinct⟩ := Scan.isNamed_of_decode hdecode
  rw [Value.same, Bool.and_eq_true, beq_iff_eq, Value.sameFields_iff] at hsame
  obtain ⟨hlength, hfields⟩ := hsame
  have hsubset : Fields.keys back ⊆ Fields.keys document := by
    intro name hname
    obtain ⟨e, he, rfl⟩ := List.mem_map.1 hname
    obtain ⟨w, hw, _⟩ := hfields e he
    exact Fields.mem_keys_of_get? hw
  -- as many different names, all of them in the document, are all names of the document
  have hcount : (Fields.keys document).length = (Fields.keys back).length := by
    rw [Fields.keys, Fields.keys, List.length_map, List.length_map, hlength]
  have hperm : (Fields.keys back).Perm (Fields.keys document) :=
    (List.subperm_of_subset hdistinct hsubset).perm_of_length_le (Nat.le_of_eq hcount)
  intro name hname
  exact hreadable name (hperm.mem_iff.2 hname)

/-- A document of tables is encoded under all settings, whatever the names of its tables
are.  If the text can be read, it is read as the same document exactly if all names are
readable, and if they are, it can be read. -/
theorem decode_same_iff {document : Document} (h : document.IsTabular) (settings : Settings)
    (compress : Bool) : ∃ text, encode settings compress document = .ok text ∧
      (∀ back, decode text = .ok back →
        ((Value.object back).same (.object document) = true ↔
          ∀ name ∈ Fields.keys document, Header.isReadable name.toList = true)) ∧
      ((∀ name ∈ Fields.keys document, Header.isReadable name.toList = true) →
        ∃ back, decode text = .ok back) := by
  have hencode := encode_of_validate h.accepted settings compress
  have hread : (∀ name ∈ Fields.keys document, Header.isReadable name.toList = true) →
      decode (String.ofList (Text.joined ['\n'] (Encoding.lines settings compress document)))
        = .ok (Encoding.readBack settings compress document) := by
    intro hnames
    rw [decode, String.toList_ofList]
    exact Encoding.decodeChars_lines (h.isReadable hnames)
  refine ⟨_, hencode, fun back hdecode => ⟨names_readable_of_same hdecode, fun hnames => ?_⟩,
    fun hnames => ⟨_, hread hnames⟩⟩
  obtain rfl := Except.ok.inj (hdecode.symm.trans (hread hnames))
  have hzeros : (Value.object (Encoding.readBack settings compress document)).positiveZeros
      = (Value.object document.normalForm).positiveZeros :=
    congrArg Value.object
      (Encoding.fieldsPositiveZeros_readBack (h.isReadable hnames) settings compress)
  rw [Value.same_congr hzeros]
  exact h.same_normalForm

/-- A document with a name that cannot be read, and with fields in two orders. -/
theorem decode_same_iff_sample :
    let document : Document :=
      [("log", .array [.object [("id", .number .zero), ("tag", .string "#0")],
          .object [("tag", .string "a, b"), ("id", .null)]]),
        ("a (b", .array [])]
    document.IsTabular ∧ ∃ text, encode Settings.standard true document = .ok text ∧
      (∀ back, decode text = .ok back →
        ((Value.object back).same (.object document) = true ↔
          ∀ name ∈ Fields.keys document, Header.isReadable name.toList = true)) ∧
      ((∀ name ∈ Fields.keys document, Header.isReadable name.toList = true) →
        ∃ back, decode text = .ok back) := by
  intro document
  have htabular : document.IsTabular := ⟨by decide, rfl, by decide, by decide⟩
  exact ⟨htabular, decode_same_iff htabular _ _⟩

/-- Two tables of which one has the name of the other and a plus sign are read as one. -/
theorem decode_plus_sign :
    let document : Document :=
      [("t", .array [.object [("id", .number (.integer 1 (by decide)))]]),
        ("t+", .array [.object [("id", .number (.integer 2 (by decide)))]])]
    document.IsTabular ∧ ∃ text back, encode Settings.standard true document = .ok text ∧
      decode text = .ok back ∧ (Value.object back).same (.object document) = false := by
  intro document
  let merged : Document :=
    [("t", .array [.object [("id", .number (.integer 1 (by decide)))],
      .object [("id", .number (.integer 2 (by decide)))]])]
  refine ⟨⟨by decide, rfl, by decide, by decide⟩,
    "@schema[id:int]\n@defaults[id:1]\n\nt(1):\n  1\n" ++
      "@schema[id:int]\n@defaults[id:2]\n\nt+(1):\n  2", merged, ?_, ?_, rfl⟩
  · cbv
  · cbv

end TableNotation
