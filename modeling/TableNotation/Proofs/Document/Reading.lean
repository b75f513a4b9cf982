import TableNotation.Document.Encoding
import TableNotation.Proofs.Table.Inference
import TableNotation.Proofs.Table.RowLine
/-!
# Lines read one after the other

What a line does to the state of a reader depends on whether a table is open.  Here
this is said for each kind of line that is written, and by induction for runs of such
lines: quiet lines, which are blank or directives, leave all tables alone; a header and
the rows under it add one table if the rows are as many as the header says, and leave
the table open if they are fewer.

* `Scan.Reads`: lines lead from one state to another.
* `takeOutside_header`, `takeInside_header`, `takeInside_row`: what a header or a row does where it
  stands.
* `reads_quiet`, `reads_quiet_inside`, `reads_layout`: lines between tables.
* `reads_block`, `reads_part`: a header with all its rows, and with some of them.
-/

namespace TableNotation

/-- Lines are numbered on behind others. -/
theorem numberedLines_append (first : Nat) (xs ys : List (List Char)) :
    numberedLines first (xs ++ ys)
      = numberedLines first xs ++ numberedLines (first + xs.length) ys := by
  induction xs generalizing first with
  | nil => rfl
  | cons x rest ih =>
    rw [List.cons_append, numberedLines, ih, numberedLines, List.cons_append, List.length_cons,
      Nat.add_assoc, Nat.add_comm 1]

/-- The record that a reader finds in the row of a record, who looks up references like
the writer. -/
def Row.readBack (writer : Dictionary) (layout : Layout) (record : Record) : Record :=
  Value.mapFields writer.resolveString (Row.restored layout record)

/-- No row has a line feed. -/
theorem Row.newline_not_mem_of_mem_rowLines {writer : Dictionary} (hd : writer.HasReferences)
    {layout : Layout} {records : List Record} {line : List Char}
    (h : line ∈ Encoding.rowLines writer layout records) : '\n' ∉ line := by
  obtain ⟨record, _, rfl⟩ := List.mem_map.1 h
  intro hmem
  rcases List.mem_append.1 hmem with hmem | hmem
  · exact absurd hmem (by decide)
  · exact (isLine_render hd layout record).oneLine hmem

namespace Scan

/-- The lines lead from one state to the other, whatever numbers they have. -/
def Reads (scan : Scan) (lines : List (List Char)) (next : Scan) : Prop :=
  ∀ first, (numberedLines first lines).foldlM take scan = .ok next

/-- The document that is found in lines which are read from a state to their end. -/
def run (scan : Scan) (first : Nat) (lines : List (List Char)) : Except DecodingError Document :=
  (numberedLines first lines).foldlM take scan >>= finish

/-- A text is read line by line from the start. -/
theorem decodeChars_eq_run (text : List Char) :
    decodeChars text = initial.run 1 (Text.lines text) := rfl

variable {scan mid next : Scan} {directives : Directives} {document : Document}

/-- Lines that lead to a state end with the document of that state. -/
theorem run_of_reads {lines : List (List Char)} (h : scan.Reads lines next) (first : Nat) :
    scan.run first lines = next.finish := by
  rw [run, h first]
  rfl

/-- No lines, no change. -/
theorem Reads.nil : scan.Reads [] scan := fun _ => rfl

/-- Lines are read one part after the other. -/
theorem Reads.append {xs ys : List (List Char)} (h : scan.Reads xs mid) (h' : mid.Reads ys next) :
    scan.Reads (xs ++ ys) next := by
  intro first
  rw [numberedLines_append, List.foldlM_append, h first]
  exact h' _

/-- A line that is taken is read, whatever the blanks around it. -/
theorem reads_line {line : List Char}
    (h : ∀ number, scan.take (number, Text.trim line) = .ok next) : scan.Reads [line] next := by
  intro first
  have hstep : (numberedLines first [line]).foldlM take scan
      = scan.take (first, Text.trim line) >>= pure := rfl
  rw [hstep, h first]
  rfl

/-- Lines can be put together to a text and be cut out of it again. -/
theorem Reads.joined {lines : List (List Char)} (hlines : ∀ line ∈ lines, '\n' ∉ line)
    (h : scan.Reads lines next) : scan.Reads (Text.lines (Text.joined ['\n'] lines)) next := by
  by_cases hnil : lines = []
  · rw [hnil] at h ⊢
    exact h
  · rw [Text.lines_joined hnil hlines]
    exact h

/-- A text put together from lines is read like the lines. -/
theorem decodeChars_joined {lines : List (List Char)} (hlines : ∀ line ∈ lines, '\n' ∉ line)
    (h : initial.Reads lines next) : decodeChars (Text.joined ['\n'] lines) = next.finish :=
  run_of_reads (h.joined hlines) 1

/-- A blank line counts for nothing. -/
theorem reads_blank : scan.Reads [[]] scan := reads_line fun _ => rfl

/-- Outside a table a filled line is a directive or a header. -/
theorem take_outside {line : List Char} (hne : line ≠ []) (number : Nat) :
    take ⟨directives, document, none⟩ (number, line)
      = takeOutside ⟨directives, document, none⟩ number line := by
  rw [take, if_neg (by simpa using hne)]

/-- Inside a table it is a directive or a row. -/
theorem take_inside {line : List Char} (hne : line ≠ []) (number : Nat) (block : Block) :
    take ⟨directives, document, some block⟩ (number, line)
      = takeInside ⟨directives, document, some block⟩ block line := by
  rw [take, if_neg (by simpa using hne)]

/-- Outside tables a line that is read as a header opens its table, if its count is no more than
can be counted. -/
theorem takeOutside_header (scan : Scan) {line : List Char} {header : Header}
    (hhead : line.head? ≠ some '@') (h : Header.read? line = some header) (number : Nat) :
    scan.takeOutside number line
      = if header.count < Header.countLimit then .ok (scan.closeIfFull ⟨header, []⟩)
        else .error .countTooLarge := by
  rw [takeOutside, if_neg hhead, h]

/-- Below a header, a line that looks like a header comes too early. -/
theorem takeInside_header (scan : Scan) {line : List Char} (h : Header.looksLike line = true)
    (block : Block) : scan.takeInside block line = .error (missingRows block) := by
  rw [takeInside, if_pos h]

/-- Below a header, a line that is neither a directive nor anything like a header is a row. -/
theorem takeInside_row (scan : Scan) {line : List Char} (hhead : line.head? ≠ some '@')
    (h : Header.looksLike line = false) (block : Block) :
    scan.takeInside block line = .ok (scan.closeIfFull { block with
      rows := Row.parse scan.directives.dictionary scan.directives.layout line :: block.rows }) := by
  rw [takeInside, h, if_neg Bool.false_ne_true, if_neg hhead]

/-- The line of a directive is not empty. -/
theorem ne_nil_of_isLine {line : List Char} (h : Directive.IsLine line) : line ≠ [] := by
  rintro rfl
  exact absurd h.head (by simp)

/-- Outside tables a directive has its effect. -/
theorem reads_directive {line : List Char} (hline : Directive.IsLine line) {after : Directives}
    (happly : ∀ number, directives.apply number line = .ok after) :
    Reads ⟨directives, document, none⟩ [line] ⟨after, document, none⟩ := by
  apply reads_line
  intro number
  rw [Text.trim_eq_self hline.tight, take_outside (ne_nil_of_isLine hline), takeOutside,
    if_pos hline.head]
  simp only [happly]
  rfl

/-- Inside a table a directive is skipped. -/
theorem reads_directive_inside {line : List Char} (hline : Directive.IsLine line)
    (block : Block) : Reads ⟨directives, document, some block⟩ [line]
      ⟨directives, document, some block⟩ := by
  apply reads_line
  intro number
  have hlooks : Header.looksLike line = false := by
    rw [Header.looksLike, hline.head]
    rfl
  rw [Text.trim_eq_self hline.tight, take_inside (ne_nil_of_isLine hline), takeInside, hlooks,
    if_neg Bool.false_ne_true, if_pos hline.head]

/-- A line that neither opens a table nor adds a row: it is blank, or a directive that
every reader accepts. -/
def IsQuiet (line : List Char) : Prop :=
  line = [] ∨ Directive.IsLine line ∧
    ∀ directives : Directives, ∃ after, ∀ number, directives.apply number line = .ok after

/-- A quiet line is one line. -/
theorem IsQuiet.oneLine {line : List Char} (h : IsQuiet line) : '\n' ∉ line := by
  rcases h with rfl | ⟨hline, _⟩
  · exact List.not_mem_nil
  · exact hline.oneLine

/-- Outside tables quiet lines change the directives only. -/
theorem reads_quiet {lines : List (List Char)} (h : ∀ line ∈ lines, IsQuiet line)
    (directives : Directives) (document : Document) : ∃ after,
      Reads ⟨directives, document, none⟩ lines ⟨after, document, none⟩ := by
  induction lines generalizing directives with
  | nil => exact ⟨directives, Reads.nil⟩
  | cons line rest ih =>
    obtain ⟨hline, hrest⟩ := List.forall_mem_cons.1 h
    rcases hline with rfl | ⟨hline, happly⟩
    · obtain ⟨after, hafter⟩ := ih hrest directives
      exact ⟨after, reads_blank.append hafter⟩
    · obtain ⟨between, hbetween⟩ := happly directives
      obtain ⟨after, hafter⟩ := ih hrest between
      exact ⟨after, (reads_directive hline hbetween).append hafter⟩

/-- Inside a table quiet lines change nothing. -/
theorem reads_quiet_inside {lines : List (List Char)} (h : ∀ line ∈ lines, IsQuiet line)
    (block : Block) : Reads ⟨directives, document, some block⟩ lines
      ⟨directives, document, some block⟩ := by
  induction lines with
  | nil => exact Reads.nil
  | cons line rest ih =>
    obtain ⟨hline, hrest⟩ := List.forall_mem_cons.1 h
    rcases hline with rfl | ⟨hline, _⟩
    · exact reads_blank.append (ih hrest)
    · exact (reads_directive_inside hline block).append (ih hrest)

/-- A table with rows to come stays open. -/
theorem closeIfFull_of_lt {block : Block} (h : block.rows.length < block.header.count) :
    closeIfFull scan block = { scan with block := some block } :=
  if_pos h

/-- A table with all its rows is closed. -/
theorem closeIfFull_of_le {block : Block} (h : block.header.count ≤ block.rows.length) :
    closeIfFull scan block = { scan with
      document := addTable scan.document block.header (block.rows.reverse.map .object)
      block := none } :=
  if_neg (Nat.not_lt.2 h)

/-- A header opens a table, or adds it at once if it has no rows. -/
theorem reads_header {header : Header} (hname : Header.isReadable header.name.toList = true)
    (hcount : header.count < Header.countLimit) :
    Reads ⟨directives, document, none⟩ [header.render]
      (closeIfFull ⟨directives, document, none⟩ ⟨header, []⟩) := by
  apply reads_line
  intro number
  rw [Text.trim_eq_self (Header.isTight_render hname), take_outside (Header.render_ne_nil header),
    takeOutside_header _ (Header.head?_render_ne hname) (Header.read?_render hname), if_pos hcount]

variable {writer : Dictionary} {layout : Layout}

/-- What has to hold so that rows are read back: the reader finds the defaults that were
written, and looks up references like the writer. -/
structure Follows (directives : Directives) (writer : Dictionary) (layout : Layout) : Prop where
  references : writer.HasReferences
  resolves : writer.reread directives.dictionary = writer.resolveString
  inForce : directives.layout = layout.reread writer directives.dictionary
  names : (layout.schema.map Prod.fst).Nodup

/-- A row under a header is added to the table. -/
theorem reads_row (hfollows : Follows directives writer layout) {record : Record}
    (hrecord : Value.fieldsHaveDistinctKeys record) {block : Block}
    (hopen : block.rows.length < block.header.count) :
    Reads (closeIfFull ⟨directives, document, none⟩ block)
      [Encoding.indent ++ Row.render writer layout record]
      (closeIfFull ⟨directives, document, none⟩
        { block with rows := Row.readBack writer layout record :: block.rows }) := by
  have hline := Row.isLine_render hfollows.references layout record
  have htrim : Text.trim (Encoding.indent ++ Row.render writer layout record)
      = Row.render writer layout record := by
    have hblank : isBlank ' ' = true := by decide
    rw [Encoding.indent, List.cons_append, List.singleton_append, Text.trim_blank_cons hblank,
      Text.trim_blank_cons hblank, Text.trim_eq_self hline.tight]
  have hparse : Row.parse directives.dictionary directives.layout
      (Row.render writer layout record) = Row.readBack writer layout record := by
    rw [hfollows.inForce, Row.parse_render directives.dictionary hfollows.references
      hfollows.names hrecord, hfollows.resolves]
    rfl
  apply reads_line
  intro number
  rw [htrim, closeIfFull_of_lt hopen, take_inside hline.ne_nil,
    takeInside_row _ hline.noDirective hline.noHeader]
  simp only [hparse]
  unfold closeIfFull
  split <;> rfl

/-- Rows under a header, not more than it says, are added one after the other. -/
theorem reads_rows (hfollows : Follows directives writer layout) {records : List Record}
    (hrecords : ∀ record ∈ records, Value.fieldsHaveDistinctKeys record) (block : Block)
    (hcount : block.rows.length + records.length ≤ block.header.count) :
    Reads (closeIfFull ⟨directives, document, none⟩ block)
      (Encoding.rowLines writer layout records)
      (closeIfFull ⟨directives, document, none⟩ { block with
        rows := (records.map (Row.readBack writer layout)).reverse ++ block.rows }) := by
  induction records generalizing block with
  | nil => exact Reads.nil
  | cons record rest ih =>
    obtain ⟨hrecord, hrest⟩ := List.forall_mem_cons.1 hrecords
    rw [List.length_cons] at hcount
    have hopen : block.rows.length < block.header.count := by omega
    have hothers := ih hrest
      { block with rows := Row.readBack writer layout record :: block.rows }
      (by simp only [List.length_cons]; omega)
    rw [List.map_cons, List.reverse_cons, List.append_assoc]
    exact (reads_row hfollows hrecord hopen).append hothers

variable {header : Header} {records : List Record}

/-- A header with all its rows adds its table. -/
theorem reads_block (hfollows : Follows directives writer layout)
    (hname : Header.isReadable header.name.toList = true)
    (hcount : header.count < Header.countLimit)
    (hrecords : ∀ record ∈ records, Value.fieldsHaveDistinctKeys record)
    (hlength : records.length = header.count) :
    Reads ⟨directives, document, none⟩
      (header.render :: Encoding.rowLines writer layout records)
      ⟨directives, addTable document header
        (records.map fun record => .object (Row.readBack writer layout record)), none⟩ := by
  have hrows : Reads (closeIfFull ⟨directives, document, none⟩ ⟨header, []⟩)
      (Encoding.rowLines writer layout records) _ :=
    reads_rows hfollows hrecords ⟨header, []⟩ (by simp only [List.length_nil]; omega)
  rw [List.append_nil, @closeIfFull_of_le _
    ⟨header, (records.map (Row.readBack writer layout)).reverse⟩ (by simp; omega)] at hrows
  simp only [List.reverse_reverse, List.map_map] at hrows
  exact (reads_header hname hcount).append hrows

/-- A header with some of its rows leaves its table open. -/
theorem reads_part (hfollows : Follows directives writer layout)
    (hname : Header.isReadable header.name.toList = true)
    (hcount : header.count < Header.countLimit)
    (hrecords : ∀ record ∈ records, Value.fieldsHaveDistinctKeys record)
    (hlength : records.length < header.count) :
    Reads ⟨directives, document, none⟩
      (header.render :: Encoding.rowLines writer layout records)
      ⟨directives, document,
        some ⟨header, (records.map (Row.readBack writer layout)).reverse⟩⟩ := by
  have hrows : Reads (closeIfFull ⟨directives, document, none⟩ ⟨header, []⟩)
      (Encoding.rowLines writer layout records) _ :=
    reads_rows hfollows hrecords ⟨header, []⟩ (by simp only [List.length_nil]; omega)
  rw [List.append_nil, @closeIfFull_of_lt _
    ⟨header, (records.map (Row.readBack writer layout)).reverse⟩ (by simp; omega)] at hrows
  exact (reads_header hname hcount).append hrows

/-- The lines of a layout put it in force. -/
theorem reads_layout (hd : writer.HasReferences) (hvalues : layout.defaults.HaveDistinctKeys)
    (reader : Dictionary) (before : Layout) :
    Reads ⟨⟨reader, before⟩, document, none⟩ (Encoding.layoutLines writer layout)
      ⟨⟨reader, layout.reread writer reader⟩, document, none⟩ := by
  have hschema : Reads ⟨⟨reader, before⟩, document, none⟩ [Directive.schema layout.schema]
      ⟨⟨reader, ⟨layout.schema, .empty⟩⟩, document, none⟩ :=
    reads_directive (Directive.isLine_schema _) fun number =>
      Directives.apply_schema ⟨reader, before⟩ number layout.schema
  unfold Encoding.layoutLines
  split
  · rename_i hempty
    have hnone : layout.defaults.reread writer reader = .empty := by
      rw [SortedMap.eq_empty_of_isEmpty hempty]
      rfl
    rw [Layout.reread, hnone]
    exact hschema
  · exact hschema.append (reads_directive (Directive.isLine_defaults hd _) fun number =>
      Directives.apply_defaults ⟨reader, ⟨layout.schema, .empty⟩⟩ number hd hvalues)

/-- The lines of a layout are quiet. -/
theorem isQuiet_of_mem_layoutLines (hd : writer.HasReferences)
    (hvalues : layout.defaults.HaveDistinctKeys) {line : List Char}
    (h : line ∈ Encoding.layoutLines writer layout) : IsQuiet line := by
  rcases List.mem_cons.1 h with rfl | h
  · exact .inr ⟨Directive.isLine_schema _, fun directives =>
      ⟨_, fun number => Directives.apply_schema directives number layout.schema⟩⟩
  · split at h
    · exact absurd h List.not_mem_nil
    · rw [List.mem_singleton.1 h]
      exact .inr ⟨Directive.isLine_defaults hd _, fun directives =>
        ⟨_, fun number => Directives.apply_defaults directives number hd hvalues⟩⟩

end Scan
end TableNotation
