import TableNotation.Proofs.Document.Tables
/-!
# Texts of documents cut short

A text that ends in the middle of a table is not read, because the header has promised
more rows; a text that ends anywhere else holds the tables up to there, and they are read
as in the whole text.  So a text that was cut short never shows a part of a table.

* `Encoding.spans`: where the tables stand among the lines of a text.
* `reads_take_of_cut`, `reads_take_of_whole`: the first lines of tables.
* `decode_firstLines`: the first lines of a text.
-/

namespace TableNotation

/-- The first lines of a text. -/
def firstLines (k : Nat) (text : String) : String :=
  String.ofList (Text.joined ['\n'] ((Text.lines text.toList).take k))

/-- A table among the lines of a text: `start` lines stand before its header. -/
structure Span where
  table : Table
  start : Nat

/-- How many lines there are up to the last row of the table. -/
def Span.stop (span : Span) : Nat := span.start + 1 + span.table.records.length

/-- Whether `k` lines have the header of the table, but not all of its rows. -/
def Span.IsCutAt (span : Span) (k : Nat) : Prop := span.start < k ∧ k < span.stop

instance (span : Span) (k : Nat) : Decidable (span.IsCutAt k) :=
  inferInstanceAs (Decidable (_ ∧ _))

namespace Table

/-- Where a table stands that is written behind `before` lines. -/
def span (settings : Settings) (writer : Dictionary) (before : Nat) (table : Table) : Span :=
  ⟨table, before + (table.leadLines settings writer).length⟩

/-- Where tables stand that are written behind `before` lines. -/
def spans (settings : Settings) (writer : Dictionary) (before : Nat) : List Table → List Span
  | [] => []
  | table :: rest =>
    table.span settings writer before
      :: spans settings writer (table.span settings writer before).stop rest

variable {settings : Settings} {writer : Dictionary} {table : Table} {tables : List Table}

theorem start_span (before : Nat) : (table.span settings writer before).start
    = before + (table.leadLines settings writer).length := rfl

theorem stop_span (before : Nat) : (table.span settings writer before).stop
    = before + (table.leadLines settings writer).length + 1 + table.records.length := rfl

theorem length_blockLines : (table.blockLines settings writer).length
    = 1 + table.records.length := by
  rw [blockLines, List.length_cons, Encoding.rowLines, List.length_map, Nat.add_comm]

theorem length_lines (before : Nat) : before + (table.lines settings writer).length
    = (table.span settings writer before).stop := by
  rw [lines, List.length_append, length_blockLines, stop_span]
  omega

/-- Tables stand behind the lines before them. -/
theorem le_start_of_mem_spans {before : Nat} {span : Span}
    (h : span ∈ spans settings writer before tables) : before ≤ span.start := by
  induction tables generalizing before with
  | nil => exact absurd h List.not_mem_nil
  | cons table rest ih =>
    rcases List.mem_cons.1 h with rfl | h
    · exact Nat.le_add_right _ _
    · have hrest := ih h
      rw [← length_lines] at hrest
      omega

/-- No table ends before the first one begins. -/
theorem countP_spans_eq_zero {before k : Nat} (h : k ≤ before) :
    (spans settings writer before tables).countP (fun span => span.stop ≤ k) = 0 := by
  apply List.countP_eq_zero.2
  intro span hspan hstop
  have hstop := of_decide_eq_true hstop
  have hstart := le_start_of_mem_spans hspan
  simp only [Span.stop] at hstop
  omega

/-- Where a table stands, its header and its rows are found. -/
theorem take_drop_of_mem_spans {start : List (List Char)} {span : Span}
    (h : span ∈ spans settings writer start.length tables) :
    ((start ++ tables.flatMap (lines settings writer)).drop span.start).take
        (span.stop - span.start) = span.table.blockLines settings writer := by
  induction tables generalizing start with
  | nil => exact absurd h List.not_mem_nil
  | cons table rest ih =>
    rw [List.flatMap_cons]
    rcases List.mem_cons.1 h with rfl | h
    · have hstart : (table.span settings writer start.length).start
          = (start ++ table.leadLines settings writer).length := by
        rw [start_span, List.length_append]
      have hlength : (table.span settings writer start.length).stop
          - (table.span settings writer start.length).start
          = (table.blockLines settings writer).length := by
        rw [length_blockLines, stop_span, start_span]
        omega
      rw [hlength, hstart, lines, List.append_assoc, ← List.append_assoc start, List.drop_left,
        List.take_left]
      rfl
    · rw [← List.append_assoc]
      apply ih
      rw [List.length_append, length_lines]
      exact h

theorem take_lines (r : Nat) :
    (table.lines settings writer).take ((table.leadLines settings writer).length + 1 + r)
      = table.leadLines settings writer ++ (table.header.render ::
        Encoding.rowLines writer (table.layout settings.optimize) (table.records.take r)) := by
  have hcount : (table.leadLines settings writer).length + 1 + r
      - (table.leadLines settings writer).length = r + 1 := by omega
  rw [lines, List.take_append, List.take_of_length_le (by omega), hcount, blockLines,
    List.take_succ_cons, Encoding.rowLines, Encoding.rowLines, List.map_take]

/-- A table of which not all rows are there is left open. -/
theorem reads_take_lines (h : table.IsReadable) (hd : writer.HasReferences) {reader : Dictionary}
    (hr : writer.reread reader = writer.resolveString) (layout : Layout) (document : Document)
    {r : Nat} (hshort : r < table.records.length) :
    ∃ directives rows, rows.length = r ∧ Scan.Reads ⟨⟨reader, layout⟩, document, none⟩
      ((table.lines settings writer).take ((table.leadLines settings writer).length + 1 + r))
      ⟨directives, document, some ⟨table.header, rows⟩⟩ := by
  have hlead := @reads_leadLines settings writer table h hd reader layout document
  have hfollows := h.follows hd hr settings.optimize
  have hrecords : ∀ record ∈ table.records.take r, Value.fieldsHaveDistinctKeys record :=
    fun record hrecord => (h.distinct record (List.mem_of_mem_take hrecord)).2
  have hlength : (table.records.take r).length = r := by
    rw [List.length_take]
    omega
  have hpart := @Scan.reads_part _ document _ _ table.header _ hfollows h.name h.count hrecords
    (by rw [hlength]; exact hshort)
  rw [take_lines]
  refine ⟨_, _, ?_, hlead.append hpart⟩
  rw [List.length_reverse, List.length_map, hlength]

theorem map_table_spans (before : Nat) :
    (spans settings writer before tables).map Span.table = tables := by
  induction tables generalizing before with
  | nil => rfl
  | cons table rest ih => rw [spans, List.map_cons, ih, span]

/-- Lines that end in the lead of a table hold nothing of it. -/
theorem reads_take_leadLines (h : table.IsReadable) (hd : writer.HasReferences) {k : Nat}
    (hk : k ≤ (table.leadLines settings writer).length) (directives : Directives)
    (document : Document) : ∃ after, Scan.Reads ⟨directives, document, none⟩
      ((table.lines settings writer).take k) ⟨after, document, none⟩ := by
  have hquiet : ∀ line ∈ (table.leadLines settings writer).take k, Scan.IsQuiet line :=
    fun _ hline => isQuiet_of_mem_leadLines h hd (List.mem_of_mem_take hline)
  rw [lines, List.take_append_of_le_length hk]
  exact Scan.reads_quiet hquiet directives document

/-- Lines that end inside a table leave it open. -/
theorem reads_take_of_cut (h : ∀ table ∈ tables, table.IsReadable) (hd : writer.HasReferences)
    {reader : Dictionary} (hr : writer.reread reader = writer.resolveString) {before k : Nat}
    (layout : Layout) (document : Document) {span : Span}
    (hspan : span ∈ spans settings writer before tables) (hcut : span.IsCutAt k) :
    ∃ directives after rows, rows.length = k - span.start - 1 ∧
      Scan.Reads ⟨⟨reader, layout⟩, document, none⟩
        ((tables.flatMap (lines settings writer)).take (k - before))
        ⟨directives, after, some ⟨span.table.header, rows⟩⟩ := by
  obtain ⟨hstart, hstop⟩ := hcut
  induction tables generalizing before layout document with
  | nil => exact absurd hspan List.not_mem_nil
  | cons table rest ih =>
    obtain ⟨htable, hrest⟩ := List.forall_mem_cons.1 h
    rw [List.flatMap_cons, List.take_append]
    rcases List.mem_cons.1 hspan with rfl | hspan
    · -- the cut is inside this table
      rw [start_span] at hstart ⊢
      rw [stop_span] at hstop
      have hcount : k - before = (table.leadLines settings writer).length + 1
          + (k - (before + (table.leadLines settings writer).length) - 1) := by omega
      have hshort : k - before - (table.lines settings writer).length = 0 := by
        rw [lines, List.length_append, length_blockLines]
        omega
      have hrow : k - (before + (table.leadLines settings writer).length) - 1
          < table.records.length := by omega
      obtain ⟨directives, rows, hrows, hreads⟩ := @reads_take_lines settings writer table htable hd
        reader hr layout document _ hrow
      rw [hshort, List.take_zero, List.append_nil, hcount]
      exact ⟨directives, document, rows, hrows, hreads⟩
    · -- this table is complete, and the cut is inside another one
      have hbehind := le_start_of_mem_spans hspan
      have hlines := @reads_lines settings writer table htable hd reader hr layout document
      have hcount : k - before - (table.lines settings writer).length
          = k - (table.span settings writer before).stop := by
        rw [← length_lines]
        omega
      have hwhole : (table.lines settings writer).length ≤ k - before := by
        have hlength := @length_lines settings writer table before
        omega
      obtain ⟨directives, after, rows, hrows, hreads⟩ := ih hrest
        ((table.layout settings.optimize).reread writer reader)
        (document.insert table.name (table.entry settings writer).2) hspan
      rw [hcount, List.take_of_length_le hwhole]
      exact ⟨directives, after, rows, hrows, hlines.append hreads⟩

/-- Lines that end outside tables hold the tables up to there. -/
theorem reads_take_of_whole (h : ∀ table ∈ tables, table.IsReadable) (hd : writer.HasReferences)
    {reader : Dictionary} (hr : writer.reread reader = writer.resolveString) {before k : Nat}
    (layout : Layout) (document : Document)
    (hwhole : ∀ span ∈ spans settings writer before tables, ¬ span.IsCutAt k) :
    ∃ directives, Scan.Reads ⟨⟨reader, layout⟩, document, none⟩
      ((tables.flatMap (lines settings writer)).take (k - before))
      ⟨directives, document.overlay ((tables.take
        ((spans settings writer before tables).countP fun span => span.stop ≤ k)).map
          (entry settings writer)), none⟩ := by
  induction tables generalizing before layout document with
  | nil => exact ⟨⟨reader, layout⟩, by simpa [Fields.overlay] using Scan.Reads.nil⟩
  | cons table rest ih =>
    obtain ⟨htable, hrest⟩ := List.forall_mem_cons.1 h
    obtain ⟨hhead, htail⟩ := List.forall_mem_cons.1 hwhole
    have hlength := @length_lines settings writer table before
    rw [List.flatMap_cons, List.take_append]
    by_cases hstart : k ≤ (table.span settings writer before).start
    · -- the lines end in the lead of this table
      rw [start_span] at hstart
      have hzero : (spans settings writer before (table :: rest)).countP
          (fun span => span.stop ≤ k) = 0 := by
        have hopen : k < (table.span settings writer before).stop := by
          rw [stop_span]
          omega
        rw [spans, List.countP_cons_of_neg (by simpa using hopen)]
        exact countP_spans_eq_zero (Nat.le_of_lt hopen)
      have hshort : k - before - (table.lines settings writer).length = 0 := by
        rw [lines, List.length_append]
        omega
      rw [hzero, hshort, List.take_zero, List.take_zero, List.append_nil]
      exact reads_take_leadLines htable hd (by omega) _ document
    · -- this table is complete, since it is not cut
      have hstop : (table.span settings writer before).stop ≤ k :=
        Nat.not_lt.1 fun hlt => hhead ⟨Nat.not_le.1 hstart, hlt⟩
      have hlines := @reads_lines settings writer table htable hd reader hr layout document
      have hcount : k - before - (table.lines settings writer).length
          = k - (table.span settings writer before).stop := by
        omega
      have hone : (spans settings writer before (table :: rest)).countP
          (fun span => span.stop ≤ k)
          = (spans settings writer (table.span settings writer before).stop rest).countP
            (fun span => span.stop ≤ k) + 1 :=
        List.countP_cons_of_pos (by simpa using hstop)
      obtain ⟨directives, hreads⟩ := ih hrest
        ((table.layout settings.optimize).reread writer reader)
        (document.insert table.name (table.entry settings writer).2) htail
      rw [hone, hcount, List.take_of_length_le (by omega), List.take_succ_cons]
      exact ⟨directives, hlines.append hreads⟩

end Table

namespace Encoding

/-- Where the tables of a document stand among the lines of its text. -/
def spans (settings : Settings) (compress : Bool) (document : Document) : List Span :=
  Table.spans settings (writer settings compress document)
    (dictionaryLines (writer settings compress document)).length
    (written settings compress document)

variable {settings : Settings} {compress : Bool} {document : Document}

/-- Where a table stands, its header and its rows are found. -/
theorem take_drop_of_mem_spans {span : Span} (hspan : span ∈ spans settings compress document) :
    ((lines settings compress document).drop span.start).take (span.stop - span.start)
      = span.table.blockLines settings (writer settings compress document) := by
  rw [lines_eq]
  exact Table.take_drop_of_mem_spans hspan

/-- Every table that is read stands somewhere. -/
theorem names_spans : (spans settings compress document).map (fun span => span.table.name)
    = Fields.keys (readBack settings compress document) := by
  have hspans : (spans settings compress document).map Span.table
      = written settings compress document := Table.map_table_spans _
  rw [readBack, Fields.keys, List.map_map, ← hspans, List.map_map]
  rfl

theorem newline_not_mem_of_mem_take (h : document.IsReadable) (k : Nat) :
    ∀ line ∈ (lines settings compress document).take k, '\n' ∉ line :=
  fun _ hline => newline_not_mem_of_mem_lines h (List.mem_of_mem_take hline)

/-- A text that ends inside a table is not read. -/
theorem decodeChars_take_of_cut (h : document.IsReadable) {k : Nat} {span : Span}
    (hspan : span ∈ spans settings compress document) (hcut : span.IsCutAt k) :
    decodeChars (Text.joined ['\n'] ((lines settings compress document).take k))
      = .error (.missingRows span.table.name span.table.records.length (k - span.start - 1)) := by
  have hlines := @newline_not_mem_of_mem_take settings compress document h k
  have hd := @hasReferences_writer settings compress document
  obtain ⟨reader, layout, hr, hlead⟩ := reads_dictionaryLines hd .initial []
  obtain ⟨directives, after, rows, hrows, hreads⟩ := Table.reads_take_of_cut
    (fun _ htable => isReadable_of_mem_written h htable) hd hr layout [] hspan hcut
  have hwhole : (dictionaryLines (writer settings compress document)).length ≤ k :=
    Nat.le_trans (Table.le_start_of_mem_spans hspan) (Nat.le_of_lt hcut.1)
  rw [lines_eq, List.take_append, List.take_of_length_le hwhole] at hlines ⊢
  have hdecode := Scan.decodeChars_joined hlines (hlead.append hreads)
  rw [hdecode, ← hrows]
  rfl

/-- A text that ends outside tables holds the tables up to there. -/
theorem decodeChars_take_of_whole (h : document.IsReadable) {k : Nat}
    (hwhole : ∀ span ∈ spans settings compress document, ¬ span.IsCutAt k) :
    decodeChars (Text.joined ['\n'] ((lines settings compress document).take k))
      = .ok ((readBack settings compress document).take
        ((spans settings compress document).countP fun span => span.stop ≤ k)) := by
  have hlines := @newline_not_mem_of_mem_take settings compress document h k
  have hd := @hasReferences_writer settings compress document
  rw [lines_eq, List.take_append] at hlines ⊢
  by_cases hshort : k ≤ (dictionaryLines (writer settings compress document)).length
  · have hquiet : ∀ line ∈ (dictionaryLines (writer settings compress document)).take k,
        Scan.IsQuiet line :=
      fun _ hline => isQuiet_of_mem_dictionaryLines hd (List.mem_of_mem_take hline)
    obtain ⟨directives, hreads⟩ := Scan.reads_quiet hquiet .initial []
    rw [Nat.sub_eq_zero_of_le hshort, List.take_zero, List.append_nil] at hlines ⊢
    have hdecode := Scan.decodeChars_joined hlines hreads
    rw [hdecode, spans, Table.countP_spans_eq_zero hshort]
    rfl
  · obtain ⟨reader, layout, hr, hlead⟩ := reads_dictionaryLines hd .initial []
    obtain ⟨directives, hreads⟩ := Table.reads_take_of_whole
      (fun _ htable => isReadable_of_mem_written h htable) hd hr layout [] hwhole
    rw [List.take_of_length_le (Nat.le_of_not_le hshort)] at hlines ⊢
    have hdecode := Scan.decodeChars_joined hlines (hlead.append hreads)
    have hsome : (Fields.keys ((readBack settings compress document).take
        ((spans settings compress document).countP fun span => span.stop ≤ k))).Nodup :=
      (List.Sublist.map _ (List.take_sublist _ _)).nodup (nodup_keys_readBack h)
    rw [hdecode, List.map_take]
    exact congrArg Except.ok (Fields.overlay_nil hsome)

end Encoding

/-- The first lines of a text that is put together from lines are the first of these. -/
theorem toList_firstLines {lines : List (List Char)} (h : ∀ line ∈ lines, '\n' ∉ line) (k : Nat) :
    (firstLines k (String.ofList (Text.joined ['\n'] lines))).toList
      = Text.joined ['\n'] (lines.take k) := by
  rw [firstLines, String.toList_ofList, String.toList_ofList]
  by_cases hnil : lines = []
  · rw [hnil]
    cases k <;> simp [Text.joined, Text.lines]
  · rw [Text.lines_joined hnil h]

/-- However the text of a document is cut short at the end of a line: if the cut is inside a
table, the text is not read, and otherwise the tables in front of the cut are read as in the
whole text.  The tables that are read have their spans, in order, and each span is where the
header and the rows of its table are found. -/
theorem decode_firstLines {document : Document} (h : document.IsReadable)
    (hvalid : document.validate = .ok ()) (settings : Settings) (compress : Bool) :
    ∃ text back, encode settings compress document = .ok text ∧ decode text = .ok back ∧
      (Encoding.spans settings compress document).map (fun span => span.table.name)
        = Fields.keys back ∧
      (∀ span ∈ Encoding.spans settings compress document,
        ((Text.lines text.toList).drop span.start).take (span.stop - span.start)
          = span.table.blockLines settings (Encoding.writer settings compress document)) ∧
      ∀ k,
        (∀ span ∈ Encoding.spans settings compress document, span.IsCutAt k →
          decode (firstLines k text) = .error (.missingRows span.table.name
            span.table.records.length (k - span.start - 1))) ∧
        ((∀ span ∈ Encoding.spans settings compress document, ¬ span.IsCutAt k) →
          decode (firstLines k text) = .ok (back.take
            ((Encoding.spans settings compress document).countP fun span => span.stop ≤ k))) := by
  have hlines : ∀ line ∈ Encoding.lines settings compress document, '\n' ∉ line :=
    fun _ hline => Encoding.newline_not_mem_of_mem_lines h hline
  refine ⟨_, Encoding.readBack settings compress document,
    encode_of_validate hvalid settings compress, ?_, ?_, ?_, ?_⟩
  · rw [decode, String.toList_ofList]
    exact Encoding.decodeChars_lines h
  · exact Encoding.names_spans
  · intro span hspan
    have hfound := Encoding.take_drop_of_mem_spans hspan
    have hne : Encoding.lines settings compress document ≠ [] := by
      intro hnil
      rw [hnil, List.drop_nil, List.take_nil] at hfound
      exact absurd hfound (by simp [Table.blockLines])
    rw [String.toList_ofList, Text.lines_joined hne hlines]
    exact hfound
  · intro k
    rw [decode, toList_firstLines hlines]
    exact ⟨fun _ hspan hcut => Encoding.decodeChars_take_of_cut h hspan hcut,
      fun hwhole => Encoding.decodeChars_take_of_whole h hwhole⟩

/-- A cut in front of the last row of the first table, and one behind a table without rows. -/
theorem decode_firstLines_sample :
    Document.sample.IsReadable ∧ Document.sample.validate = .ok () ∧
      ∃ text back, encode .standard true Document.sample = .ok text ∧ decode text = .ok back ∧
        decode (firstLines 8 text) = .error (.missingRows "log" 3 2) ∧
        decode (firstLines 12 text) = .ok (back.take 2) := by
  have hreadable : Document.sample.IsReadable := by decide
  have hcut : ∃ span ∈ Encoding.spans .standard true Document.sample,
      span.table.name = "log" ∧ span.table.records.length = 3 ∧ span.start = 5 := by
    decide +kernel
  have hwhole : ∀ span ∈ Encoding.spans .standard true Document.sample, ¬ span.IsCutAt 12 := by
    decide +kernel
  have hcount : (Encoding.spans .standard true Document.sample).countP
      (fun span => span.stop ≤ 12) = 2 := by decide +kernel
  obtain ⟨text, back, hencode, hdecode, _, _, hfirst⟩ :=
    decode_firstLines hreadable rfl .standard true
  obtain ⟨span, hspan, hname, hlength, hstart⟩ := hcut
  have hshort := (hfirst 8).1 span hspan (by simp only [Span.IsCutAt, Span.stop]; omega)
  have hlong := (hfirst 12).2 hwhole
  rw [hname, hlength, hstart] at hshort
  rw [hcount] at hlong
  exact ⟨hreadable, rfl, text, back, hencode, hdecode, hshort, hlong⟩

end TableNotation
