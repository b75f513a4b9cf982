import TableNotation.Proofs.Document.RoundTrip
import TableNotation.Stream.Chunk
/-!
# The first chunks of a stream

The chunks of a stream can be read as soon as they are there: the first of them bring
the layout and the records they hold, and every later one adds its records to the table.
Only the first chunk has the layout, so the reader has to keep it; this is the state that
is carried along from chunk to chunk.

* `reads_chunks`: what the first chunks lead to, by induction on their number.
* `decode_prefix`: the first chunks hold the first records, and all chunks hold what the
  text of the table holds.
-/

namespace TableNotation.ChunkStream

/-- The records of a chunk. -/
def chunkRecords (stream : ChunkStream) (index : Nat) : List Record :=
  (stream.records.take (min (index * stream.chunkSize + stream.chunkSize)
    stream.records.length)).drop (index * stream.chunkSize)

/-- The header of a chunk; all but the first one continue the table. -/
def chunkHeader (stream : ChunkStream) (index : Nat) : Header :=
  ⟨stream.table, (stream.chunkRecords index).length, index != 0⟩

/-- The lines of a chunk. -/
def chunkLines (stream : ChunkStream) (index : Nat) : List (List Char) :=
  (if index = 0 then Encoding.layoutLines .empty stream.layout else [])
    ++ [] :: (stream.chunkHeader index).render ::
      Encoding.rowLines .empty stream.layout (stream.chunkRecords index)

theorem data_chunk (stream : ChunkStream) (index : Nat) :
    (stream.chunk index).data = Text.joined ['\n'] (stream.chunkLines index) := rfl

/-- The records of chunks that follow each other follow each other. -/
theorem take_append_chunkRecords (stream : ChunkStream) (index : Nat) :
    stream.records.take (index * stream.chunkSize) ++ stream.chunkRecords index
      = stream.records.take ((index + 1) * stream.chunkSize) := by
  have hlast : stream.records.take (min (index * stream.chunkSize + stream.chunkSize)
      stream.records.length) = stream.records.take ((index + 1) * stream.chunkSize) := by
    rw [Nat.add_mul, Nat.one_mul, ← List.take_eq_take_min]
  have hfirst : stream.records.take (index * stream.chunkSize)
      = (stream.records.take ((index + 1) * stream.chunkSize)).take
        (index * stream.chunkSize) := by
    rw [List.take_take, Nat.min_eq_left (Nat.mul_le_mul_right _ (Nat.le_succ _))]
  rw [chunkRecords, hlast, hfirst, List.take_append_drop]

theorem mem_of_mem_chunkRecords {stream : ChunkStream} {index : Nat} {record : Record}
    (h : record ∈ stream.chunkRecords index) : record ∈ stream.records :=
  List.mem_of_mem_take (List.mem_of_mem_drop h)

theorem length_chunkRecords_le (stream : ChunkStream) (index : Nat) :
    (stream.chunkRecords index).length ≤ stream.records.length := by
  rw [chunkRecords, List.length_drop, List.length_take]
  omega

/-- The chunks put together have the lines of the chunks. -/
theorem text_chunks (stream : ChunkStream) (k : Nat) :
    text ((List.range k).map stream.chunk)
      = Text.joined ['\n'] ((List.range k).flatMap stream.chunkLines) := by
  have hne : ∀ lines ∈ (List.range k).map stream.chunkLines, lines ≠ [] := by
    intro lines hlines
    obtain ⟨index, _, rfl⟩ := List.mem_map.1 hlines
    simp [chunkLines]
  rw [List.flatMap_def, ← Text.joined_map_joined ['\n'] hne, text, List.map_map, List.map_map]
  exact congrArg _ (List.map_congr_left fun index _ => data_chunk stream index)

/-- All records can be written in chunks. -/
theorem length_le_total_mul (stream : ChunkStream) :
    stream.records.length ≤ stream.total * stream.chunkSize := by
  have hpos := stream.chunkSize_pos
  have hdiv := Nat.div_add_mod (stream.records.length + (stream.chunkSize - 1)) stream.chunkSize
  have hmod := Nat.mod_lt (stream.records.length + (stream.chunkSize - 1)) hpos
  rw [Nat.mul_comm] at hdiv
  unfold total
  omega

theorem one_le_total {stream : ChunkStream} (hne : stream.records ≠ []) : 1 ≤ stream.total := by
  have hlength := List.length_pos_iff.2 hne
  have hall := length_le_total_mul stream
  refine Nat.one_le_iff_ne_zero.2 fun hzero => ?_
  rw [hzero, Nat.zero_mul] at hall
  omega

/-- At its start a stream has all its chunks ahead. -/
theorem rest_eq {stream : ChunkStream} (hstart : stream.done = 0) :
    stream.rest = (List.range stream.total).map stream.chunk := by
  rw [rest, remaining, hstart, List.range_eq_range', Nat.sub_zero]

section Reading

variable {stream : ChunkStream} {optimize : Bool}

/-- A stream of a table that can be read, with its layout. -/
structure IsReadable (stream : ChunkStream) (optimize : Bool) : Prop where
  table : Table.IsReadable ⟨stream.table, stream.records⟩
  layout : stream.layout = Layout.infer optimize stream.records

/-- The entry of a table with the records so far. -/
def entry (stream : ChunkStream) (records : List Record) : String × Value :=
  (stream.table, .array (records.map fun record =>
    .object (Row.readBack .empty stream.layout record)))

theorem IsReadable.follows (h : stream.IsReadable optimize) :
    Scan.Follows ⟨.empty, stream.layout.reread .empty .empty⟩ .empty stream.layout := by
  rw [h.layout]
  exact h.table.follows Dictionary.hasReferences_empty (Dictionary.reread_self .empty) optimize

/-- The header and the rows of a chunk. -/
theorem reads_chunkHeader (h : stream.IsReadable optimize) (index : Nat) (document : Document) :
    Scan.Reads ⟨⟨.empty, stream.layout.reread .empty .empty⟩, document, none⟩
      ([] :: (stream.chunkHeader index).render ::
        Encoding.rowLines .empty stream.layout (stream.chunkRecords index))
      ⟨⟨.empty, stream.layout.reread .empty .empty⟩,
        Scan.addTable document (stream.chunkHeader index)
          ((stream.chunkRecords index).map fun record =>
            .object (Row.readBack .empty stream.layout record)), none⟩ := by
  have hcount : (stream.chunkHeader index).count < Header.countLimit :=
    Nat.lt_of_le_of_lt (length_chunkRecords_le stream index) h.table.count
  have hrecords : ∀ record ∈ stream.chunkRecords index, Value.fieldsHaveDistinctKeys record :=
    fun record hrecord => (h.table.distinct record (mem_of_mem_chunkRecords hrecord)).2
  exact Scan.reads_blank.append (Scan.reads_block h.follows h.table.name hcount hrecords rfl)

/-- The first chunks hold the first records, and leave the layout in force. -/
theorem reads_chunks (h : stream.IsReadable optimize) (k : Nat) :
    Scan.initial.Reads ((List.range (k + 1)).flatMap stream.chunkLines)
      ⟨⟨.empty, stream.layout.reread .empty .empty⟩,
        [stream.entry (stream.records.take ((k + 1) * stream.chunkSize))], none⟩ := by
  induction k with
  | zero =>
    have hvalues : stream.layout.defaults.HaveDistinctKeys := by
      rw [h.layout]
      exact Layout.haveDistinctKeys_infer _ _
    have hlayout := @Scan.reads_layout [] .empty stream.layout Dictionary.hasReferences_empty
      hvalues .empty .empty
    have hrecords := take_append_chunkRecords stream 0
    rw [Nat.zero_mul, List.take_zero, List.nil_append] at hrecords
    rw [← hrecords]
    have hchunk := hlayout.append (reads_chunkHeader h 0 [])
    have hlines : (List.range (0 + 1)).flatMap stream.chunkLines = stream.chunkLines 0 :=
      List.flatMap_singleton _ _
    rw [hlines]
    exact hchunk
  | succ k ih =>
    have hlines : (List.range (k + 1 + 1)).flatMap stream.chunkLines
        = (List.range (k + 1)).flatMap stream.chunkLines ++ stream.chunkLines (k + 1) := by
      rw [List.range_succ, List.flatMap_append, List.flatMap_singleton]
    rw [hlines, ← take_append_chunkRecords stream (k + 1)]
    have hchunk := reads_chunkHeader h (k + 1)
      [stream.entry (stream.records.take ((k + 1) * stream.chunkSize))]
    have hadd : Scan.addTable [stream.entry (stream.records.take ((k + 1) * stream.chunkSize))]
        (stream.chunkHeader (k + 1)) ((stream.chunkRecords (k + 1)).map fun record =>
          .object (Row.readBack .empty stream.layout record))
        = [stream.entry (stream.records.take ((k + 1) * stream.chunkSize)
          ++ stream.chunkRecords (k + 1))] := by
      simp [Scan.addTable, chunkHeader, entry, Fields.get?, Fields.insert]
    rw [hadd] at hchunk
    exact ih.append hchunk

theorem newline_not_mem_of_mem_chunkLines (h : stream.IsReadable optimize) {index : Nat}
    {line : List Char} (hline : line ∈ stream.chunkLines index) : '\n' ∉ line := by
  have hd := Dictionary.hasReferences_empty
  have hvalues : stream.layout.defaults.HaveDistinctKeys := by
    rw [h.layout]
    exact Layout.haveDistinctKeys_infer _ _
  rcases List.mem_append.1 hline with hline | hline
  · split at hline
    · exact (Scan.isQuiet_of_mem_layoutLines hd hvalues hline).oneLine
    · exact absurd hline List.not_mem_nil
  rcases List.mem_cons.1 hline with rfl | hline
  · exact List.not_mem_nil
  rcases List.mem_cons.1 hline with rfl | hline
  · exact @Header.newline_not_mem_render (stream.chunkHeader index) h.table.name
  · exact Row.newline_not_mem_of_mem_rowLines hd hline

/-- The text of the first chunks is read as a table of the first records. -/
theorem decodeChars_chunks (h : stream.IsReadable optimize) {k : Nat} (hk : 1 ≤ k) :
    decodeChars (text ((List.range k).map stream.chunk))
      = .ok [stream.entry (stream.records.take (k * stream.chunkSize))] := by
  obtain ⟨m, rfl⟩ : ∃ m, k = m + 1 := ⟨k - 1, by omega⟩
  have hlines : ∀ line ∈ (List.range (m + 1)).flatMap stream.chunkLines, '\n' ∉ line := by
    intro line hline
    obtain ⟨index, _, hline⟩ := List.mem_flatMap.1 hline
    exact newline_not_mem_of_mem_chunkLines h hline
  rw [text_chunks]
  exact Scan.decodeChars_joined hlines (reads_chunks h m)

/-- Every record comes back with the fields of the first one. -/
theorem fieldsPositiveZeros_entry (h : stream.IsReadable optimize) (records : List Record) :
    Value.fieldsPositiveZeros [stream.entry records]
      = Value.fieldsPositiveZeros [(stream.table, .array (records.map fun record =>
        .object (Record.project (Fields.keys (stream.records.headD [])) record)))] := by
  have hrecord : ∀ record : Record,
      Value.fieldsPositiveZeros (Row.readBack .empty stream.layout record)
        = Value.fieldsPositiveZeros
          (Record.project (Fields.keys (stream.records.headD [])) record) := by
    intro record
    have hresolve : Value.mapFields (Dictionary.resolveString .empty) record = record :=
      Value.mapFields_eq_self _ record fun _ _ => rfl
    rw [h.layout, Row.fieldsPositiveZeros_readBack optimize h.table.nodup_keys_headD, hresolve]
  simp only [Value.fieldsPositiveZeros, entry, Value.positiveZeros,
    Value.itemsPositiveZeros_eq_map, List.map_map, Function.comp_def, hrecord]

end Reading

/-- The table that is selected is one of the document. -/
theorem mem_of_selectTable {document : Document} {table : Option String} {e : String × Value}
    (h : selectTable document table = .ok e) : e ∈ document := by
  unfold selectTable at h
  split at h
  · exact absurd h (by simp)
  · rename_i name _
    split at h
    · rename_i v hv
      obtain rfl := Except.ok.inj h
      exact Fields.mem_of_get? hv
    · exact absurd h (by simp)
  · obtain rfl := Except.ok.inj h
    exact List.mem_singleton_self _
  · exact absurd h (by simp)

/-- The stream of a table of records. -/
theorem ofDocument_of_selectTable {document : Document} {table : Option String} {name : String}
    {records : List Record} {chunkSize : Nat}
    (hselect : selectTable document table = .ok (name, .array (records.map .object)))
    (optimize : Bool) (hpos : 0 < chunkSize) :
    ofDocument optimize chunkSize hpos document table
      = .ok ⟨name, records, Layout.infer optimize records, chunkSize, hpos, 0⟩ := by
  unfold ofDocument
  rw [hselect]
  simp only [bind, Except.bind, Value.recordsOf_eq_ok_iff.2 rfl]
  rfl

/-- A table that is selected and has a name that can be read can be read. -/
theorem isReadable_of_selectTable {document : Document} {table : Option String} {name : String}
    {records : List Record} (hkeys : (Value.object document).hasDistinctKeys)
    (hselect : selectTable document table = .ok (name, .array (records.map .object)))
    (hname : Header.isReadable name.toList = true) (hcount : records.length < Header.countLimit) :
    Document.IsReadable [(name, .array (records.map .object))] := by
  have hitems : (Value.array (records.map .object)).hasDistinctKeys :=
    Value.hasDistinctKeys_of_mem_fields hkeys.2 (mem_of_selectTable hselect)
  refine ⟨⟨by simp [Fields.keys], hitems, trivial⟩, ?_, ?_⟩
  · intro other items hmem
    obtain ⟨rfl, _⟩ := Prod.mk.inj (List.mem_singleton.1 hmem)
    exact hname
  · intro other items hmem
    obtain ⟨_, hitems⟩ := Prod.mk.inj (List.mem_singleton.1 hmem)
    rw [Value.array.inj hitems, List.length_map]
    exact hcount

/-- The text of a table alone, without a dictionary, is read as its entry. -/
theorem readBack_table (stream : ChunkStream) {settings : Settings}
    (h : stream.layout = Layout.infer settings.optimize stream.records) :
    Encoding.readBack settings false [(stream.table, .array (stream.records.map .object))]
      = [stream.entry stream.records] := by
  have hwritten : Encoding.written settings false
      [(stream.table, .array (stream.records.map .object))]
      = [⟨stream.table, stream.records⟩] :=
    congrArg (fun records => [Table.mk stream.table records])
      (filterMap_asObject?_map_object stream.records)
  rw [Encoding.readBack, hwritten, entry, h]
  rfl

/-- However many chunks of a stream are there, they are read as the table with the records
that they hold, each with the fields of the first one; only zeros may change their signs.
All chunks are read as the text of the table would be, whatever the size of the chunks. -/
theorem decode_prefix {document : Document} {table : Option String} {name : String}
    {records : List Record} {chunkSize : Nat} (hkeys : (Value.object document).hasDistinctKeys)
    (hselect : selectTable document table = .ok (name, .array (records.map .object)))
    (hname : Header.isReadable name.toList = true) (hne : records ≠ [])
    (hcount : records.length < Header.countLimit) (optimize : Bool) (hpos : 0 < chunkSize) :
    ∃ stream, ofDocument optimize chunkSize hpos document table = .ok stream ∧
      (∀ k, 1 ≤ k → k ≤ stream.total →
        ∃ back, decode (String.ofList (text (stream.rest.take k))) = .ok back ∧
          Value.fieldsPositiveZeros back = Value.fieldsPositiveZeros
            [(name, .array ((records.take (min (k * chunkSize) records.length)).map fun record =>
              .object (Record.project (Fields.keys (records.headD [])) record)))]) ∧
      ∀ settings : Settings, settings.optimize = optimize →
        ∃ tableText, encode settings false [(name, .array (records.map .object))] = .ok tableText ∧
          decode (String.ofList (text stream.rest)) = decode tableText := by
  have hdocument := isReadable_of_selectTable hkeys hselect hname hcount
  let stream : ChunkStream := ⟨name, records, Layout.infer optimize records, chunkSize, hpos, 0⟩
  have hstream : stream.IsReadable optimize := by
    refine ⟨hdocument.of_mem_tables ?_, rfl⟩
    have htables : Document.tables [(name, .array (records.map .object))]
        = [⟨name, (records.map Value.object).filterMap Value.asObject?⟩] := rfl
    rw [htables, filterMap_asObject?_map_object]
    exact List.mem_singleton_self _
  have hrest : stream.rest = (List.range stream.total).map stream.chunk := rest_eq rfl
  refine ⟨stream, ofDocument_of_selectTable hselect optimize hpos, ?_, ?_⟩
  · intro k hk htotal
    have htake : stream.rest.take k = (List.range k).map stream.chunk := by
      rw [hrest, ← List.map_take, List.take_range, Nat.min_eq_left htotal]
    refine ⟨[stream.entry (records.take (k * chunkSize))], ?_, ?_⟩
    · rw [decode, String.toList_ofList, htake]
      exact decodeChars_chunks hstream hk
    · rw [fieldsPositiveZeros_entry hstream, List.take_eq_take_min]
  · intro settings hoptimize
    have hlayout : stream.layout = Layout.infer settings.optimize stream.records := by
      rw [hoptimize]
    have htable := readBack_table stream hlayout
    refine ⟨_, encode_of_validate (Document.validate_table name records) settings false, ?_⟩
    rw [decode, decode, String.toList_ofList, String.toList_ofList, hrest,
      decodeChars_chunks hstream (one_le_total hne), Encoding.decodeChars_lines hdocument, htable,
      List.take_of_length_le (length_le_total_mul stream)]

/-- The first of two chunks, with one of the three records missing. -/
theorem decode_prefix_sample :
    (Value.object Document.sample).hasDistinctKeys ∧
      selectTable Document.sample (some "log")
        = .ok ("log", .array (Document.sampleRecords.map .object)) ∧
      Header.isReadable "log".toList = true ∧ Document.sampleRecords ≠ [] ∧
      Document.sampleRecords.length < Header.countLimit ∧
      ∃ stream, ofDocument true 2 (by decide) Document.sample (some "log") = .ok stream ∧
        ∃ back, decode (String.ofList (text (stream.rest.take 1))) = .ok back ∧
          Value.fieldsPositiveZeros back = Value.fieldsPositiveZeros
            [("log", .array ((Document.sampleRecords.take 2).map fun record =>
              .object (Record.project ["level", "load", "tag", "path"] record)))] := by
  have hkeys : (Value.object Document.sample).hasDistinctKeys := by decide
  have hselect : selectTable Document.sample (some "log")
      = .ok ("log", .array (Document.sampleRecords.map .object)) := by rfl
  have hname : Header.isReadable "log".toList = true := by decide
  have hne : Document.sampleRecords ≠ [] := List.cons_ne_nil _ _
  have hcount : Document.sampleRecords.length < Header.countLimit := by decide
  have hpos : 0 < 2 := by decide
  have hstream := ofDocument_of_selectTable hselect true hpos
  have htotal : 1 ≤ (Document.sampleRecords.length + (2 - 1)) / 2 := by decide
  obtain ⟨stream, hfound, hprefix, _⟩ := decode_prefix hkeys hselect hname hne hcount true hpos
  obtain rfl := Except.ok.inj (hstream.symm.trans hfound)
  exact ⟨hkeys, hselect, hname, hne, hcount, _, hstream,
    hprefix 1 (Nat.le_refl 1) htotal⟩

end TableNotation.ChunkStream
